import Mathlib.Data.List.Forall2
import Packwright.Proofs.Path.File
import Packwright.Proofs.Path.Shape
import Packwright.Unit.Load

/-!
# Patterns for the files of a directory

The files that are compiled are described twice, by their names and by patterns. A pattern is the name
of a directory with a pattern for names behind it; both are put together as texts, and a directory may
be written in any way.

* `Wild` and `GlobMatches` say what a pattern matches: component by component, where components that
  lead nowhere do not count.
* `OnDrive` tells where the text of a path starts with a drive, which stays in front of a normal form;
  `OnDrive.of_child` is where a directory and what is in it differ in this.
* `steps_virtual_child`: what is in a directory has its steps and one more.
* `globMatches_child` puts these together.
-/

namespace Packwright

open Packwright.Path

namespace Compile

/-! ## Patterns -/

/-- Whether a component matches the pattern of one: a star stands for any characters, a question mark
for one, and everything else for itself. -/
inductive Wild : List Char → List Char → Prop
  | nil : Wild [] []
  | same (c : Char) {pattern text : List Char} (h : Wild pattern text) : Wild (c :: pattern) (c :: text)
  | one (c : Char) {pattern text : List Char} (h : Wild pattern text) :
    Wild ('?' :: pattern) (c :: text)
  | none {pattern text : List Char} (h : Wild pattern text) : Wild ('*' :: pattern) text
  | more (c : Char) {pattern text : List Char} (h : Wild ('*' :: pattern) text) :
    Wild ('*' :: pattern) (c :: text)

/-- Whether a path matches a pattern, step by step; both start at the root or neither does. -/
def GlobMatches (pattern path : String) : Prop :=
  (Anchor.ofChars pattern.toList).isAbsolute = (Anchor.ofChars path.toList).isAbsolute ∧
    List.Forall₂ Wild (steps pattern.toList) (steps path.toList)

theorem Wild.refl (text : List Char) : Wild text text := by
  induction text with
  | nil => exact .nil
  | cons c rest ih => exact .same c ih

/-- A star matches whatever stands in front of an ending. -/
theorem Wild.star_append (front ending : List Char) : Wild ('*' :: ending) (front ++ ending) := by
  induction front with
  | nil => exact .none (.refl ending)
  | cons c front ih => exact .more c ih

end Compile

/-! ## The steps of a virtual path -/

namespace FilePath

open Packwright.Text

/-- Whether a path is one that a text writes, without backslashes in it. -/
structure WrittenPlainly (p : FilePath) : Prop where
  written : p.IsWritten
  no_backslash : ∀ part ∈ p.parts, '\\' ∉ part.toList

/-- Whether the text of a path starts with a drive, and what follows it: the letter of a drive is the
first part, and not the only one. -/
structure OnDrive (p : FilePath) (letter : Char) (rest : List Component) : Prop where
  alpha : letter.isAlpha = true
  rest_ne : rest ≠ []
  relative : p.anchor = .relative
  parts : p.parts.map String.toList = [letter, ':'] :: rest

variable {p d : FilePath} {name : String} {letter : Char} {rest : List Component}

/-- The parts of a path that was written lead somewhere. -/
theorem WrittenPlainly.leadSomewhere (h : p.WrittenPlainly) :
    ∀ c ∈ p.parts.map String.toList, LeadsSomewhere c :=
  leadSomewhere_of_isStep h.written.isStep

/-- The virtual path is the normal form of the spelling. -/
theorem toList_virtual (p : FilePath) :
    (Compile.virtual p).toList = normalizeChars (render p.anchor (p.parts.map String.toList)) := by
  rw [← toList_toString_eq]
  exact String.toList_ofList

/-- A plainly written path has no backslash in its spelling. -/
theorem WrittenPlainly.backslash_not_mem_render (h : p.WrittenPlainly) :
    '\\' ∉ render p.anchor (p.parts.map String.toList) := by
  intro hmem
  rcases mem_render hmem with hslash | hdot | ⟨c, hc, hin⟩
  · exact absurd hslash (by decide)
  · exact absurd hdot (by decide)
  · obtain ⟨part, hpart, rfl⟩ := List.mem_map.mp hc
    exact h.no_backslash part hpart hin

theorem map_parts_child (d : FilePath) (hname : IsName name.toList) :
    (d.child name).parts.map String.toList = d.parts.map String.toList ++ [name.toList] := by
  rw [child_name d hname, List.map_append]
  rfl

theorem anchor_child (d : FilePath) (hname : IsName name.toList) :
    (d.child name).anchor = d.anchor := by
  rw [child_name d hname]

/-- A plain name keeps a path plainly written. -/
theorem WrittenPlainly.child (h : d.WrittenPlainly) (hname : IsPlainName name) :
    (d.child name).WrittenPlainly where
  written := isWritten_of_isStep (isStep_child h.written.isStep name)
  no_backslash := by
    rw [child_name d hname.1]
    exact List.forall_mem_append.mpr ⟨h.no_backslash, by simpa using hname.2⟩

/-! ### Drives -/

/-- The spelling of a path on a drive. -/
theorem OnDrive.render_eq (h : p.OnDrive letter rest) :
    render p.anchor (p.parts.map String.toList) = letter :: ':' :: '/' :: joinWith '/' rest := by
  rw [h.relative, h.parts]
  obtain ⟨next, more, rfl⟩ := List.exists_cons_of_ne_nil h.rest_ne
  rfl

/-- A path is spelled with a drive only if it is on one. -/
theorem exists_onDrive (hp : p.WrittenPlainly)
    (hdrive : startsWithDrive (render p.anchor (p.parts.map String.toList)) = true) :
    ∃ letter rest, p.OnDrive letter rest := by
  have hlead := hp.leadSomewhere
  obtain ⟨letter, tail, hletter, htext⟩ :=
    exists_of_startsWithDrive hp.backslash_not_mem_render hdrive
  have hslash := ne_slash_of_isAlpha hletter
  have hanchor : p.anchor = .relative := by
    rw [← ofChars_render p.anchor hlead, htext]
    simp [Anchor.ofChars, hslash]
  have hparts : p.parts.map String.toList = [letter, ':'] :: steps tail := by
    have hcut := steps_render p.anchor hlead
    rw [htext] at hcut
    rw [← hcut]
    show steps ([letter, ':'] ++ '/' :: tail) = _
    rw [steps_append_slash, (isName_drive hletter).leadsSomewhere.steps_eq]
    rfl
  refine ⟨letter, steps tail, hletter, fun hnil => ?_, hanchor, hparts⟩
  -- with the letter alone there would be no slash behind it
  rw [hparts, hnil, hanchor] at htext
  have hlength := congrArg List.length htext
  simp [render, Anchor.text, joinWith] at hlength

/-- A child is on the drive of its directory. -/
theorem OnDrive.child (h : d.OnDrive letter rest) (hname : IsName name.toList) :
    (d.child name).OnDrive letter (rest ++ [name.toList]) where
  alpha := h.alpha
  rest_ne := by simp
  relative := (anchor_child d hname).trans h.relative
  parts := by rw [map_parts_child d hname, h.parts]; rfl

/-- What is on a drive is in a directory on this drive, or in one that is the letter alone. -/
theorem OnDrive.of_child (h : (d.child name).OnDrive letter rest) (hname : IsName name.toList) :
    (∃ before, d.OnDrive letter before) ∨
      d.anchor = .relative ∧ d.parts.map String.toList = [[letter, ':']] ∧ rest = [name.toList] := by
  have hrelative : d.anchor = .relative := (anchor_child d hname).symm.trans h.relative
  have hparts : d.parts.map String.toList ++ [name.toList] = [letter, ':'] :: rest :=
    (map_parts_child d hname).symm.trans h.parts
  cases hcut : d.parts.map String.toList with
  | nil =>
    rw [hcut] at hparts
    exact absurd (List.cons.inj hparts).2.symm h.rest_ne
  | cons first before =>
    rw [hcut] at hparts
    obtain ⟨rfl, rfl⟩ := List.cons.inj hparts
    -- the name is the first part behind the drive, or a later one
    by_cases halone : before = []
    · exact .inr ⟨hrelative, by rw [halone], by rw [halone]; rfl⟩
    · exact .inl ⟨before, h.alpha, halone, hrelative, hcut⟩

/-- The steps of a path on a drive: the drive first, and the rest reduced from the root. -/
theorem OnDrive.steps_virtual (h : p.OnDrive letter rest) (hp : p.WrittenPlainly) :
    steps (Compile.virtual p).toList = [letter, ':'] :: reduce true rest ∧
      Anchor.ofChars (Compile.virtual p).toList = .relative := by
  have hrest : ∀ c ∈ rest, LeadsSomewhere c := fun c hc =>
    hp.leadSomewhere c (h.parts ▸ List.mem_cons_of_mem _ hc)
  have hplain := hp.backslash_not_mem_render
  rw [toList_virtual, h.render_eq] at *
  rw [(steps_normalizeChars_drive hplain h.alpha).1, steps_joinWith hrest]
  exact ⟨rfl, (steps_normalizeChars_drive hplain h.alpha).2⟩

/-- The steps of any other path are its reduced parts. -/
theorem steps_virtual (hp : p.WrittenPlainly) (hnone : ∀ letter rest, ¬ p.OnDrive letter rest) :
    steps (Compile.virtual p).toList = reduce p.anchor.isAbsolute (p.parts.map String.toList) ∧
      Anchor.ofChars (Compile.virtual p).toList = p.anchor := by
  have hdrive : ¬ startsWithDrive (render p.anchor (p.parts.map String.toList)) = true := by
    intro hdrive
    obtain ⟨letter, rest, h⟩ := exists_onDrive hp hdrive
    exact hnone letter rest h
  have hnormal := steps_normalizeChars hp.backslash_not_mem_render (render_ne_nil _ _) hdrive
  rw [ofChars_render _ hp.leadSomewhere, steps_render _ hp.leadSomewhere] at hnormal
  rw [toList_virtual]
  exact hnormal

/-! ### What is in a directory -/

/-- **What is in a directory has its steps and one more**, however the directory is written. -/
theorem steps_virtual_child (hd : d.WrittenPlainly) (hname : IsPlainName name) :
    steps (Compile.virtual (d.child name)).toList =
        steps (Compile.virtual d).toList ++ [name.toList] ∧
      Anchor.ofChars (Compile.virtual (d.child name)).toList =
        Anchor.ofChars (Compile.virtual d).toList := by
  have hchild := hd.child hname
  -- a relative path that starts with a letter and a colon is read as one on a drive
  by_cases hdrive : ∃ letter before, d.OnDrive letter before
  · obtain ⟨letter, before, h⟩ := hdrive
    have hhere := h.steps_virtual hd
    have hthere := (h.child hname.1).steps_virtual hchild
    rw [hhere.1, hhere.2, hthere.1, hthere.2, reduce_concat_name hname.1]
    exact ⟨rfl, rfl⟩
  · have hhere := steps_virtual hd fun letter before h => hdrive ⟨letter, before, h⟩
    rw [hhere.1, hhere.2]
    by_cases hnewDrive : ∃ letter rest, (d.child name).OnDrive letter rest
    · -- the directory is the letter alone, which is no drive yet
      obtain ⟨letter, rest, h⟩ := hnewDrive
      obtain ⟨hrelative, hletter, hrest⟩ :=
        (h.of_child hname.1).resolve_left fun ⟨before, hbefore⟩ => hdrive ⟨letter, before, hbefore⟩
      have hthere := h.steps_virtual hchild
      have hisName : IsName [letter, ':'] := isName_drive h.alpha
      rw [hthere.1, hthere.2, hrelative, hletter, hrest,
        reduce_of_reduced (reduced_of_names (by simpa using hname.1)),
        reduce_of_reduced (reduced_of_names (by simpa using hisName))]
      exact ⟨rfl, rfl⟩
    · have hthere := steps_virtual hchild fun letter rest h => hnewDrive ⟨letter, rest, h⟩
      rw [hthere.1, hthere.2, anchor_child d hname.1, map_parts_child d hname.1,
        reduce_concat_name hname.1]
      exact ⟨rfl, rfl⟩

end FilePath

namespace Compile

/-- Whether a path is absolute shows at its beginning. -/
theorem isAbsolute_append_slash {p : List Char} (hne : p ≠ []) (q : List Char) :
    (Anchor.ofChars (p ++ '/' :: q)).isAbsolute = (Anchor.ofChars p).isAbsolute := by
  obtain ⟨c, more, rfl⟩ := List.exists_cons_of_ne_nil hne
  by_cases hc : c = '/'
  · rw [hc, isAbsolute_ofChars_slash]
    exact isAbsolute_ofChars_slash _
  · simp [Anchor.ofChars, hc]

/-- The pattern for the sources in a directory. -/
def globOf (dir : FilePath) : String :=
  virtual dir ++ "/*.ts"

/-- **The sources in a directory match its pattern.** -/
theorem globMatches_child {dir : FilePath} {name : String} (hdir : dir.WrittenPlainly)
    (hname : FilePath.IsPlainName name) (hending : sourceExtension <:+ name.toList) :
    GlobMatches (globOf dir) (virtual (dir.child name)) := by
  obtain ⟨hsteps, hanchor⟩ := FilePath.steps_virtual_child hdir hname
  have htext : (globOf dir).toList = (virtual dir).toList ++ '/' :: '*' :: sourceExtension := by
    unfold globOf
    rw [String.toList_append]
    rfl
  have hstar : LeadsSomewhere ('*' :: sourceExtension) := ⟨by simp, by decide, by decide⟩
  have hne : (virtual dir).toList ≠ [] := by
    rw [FilePath.toList_virtual, Ne, normalizeChars_eq_nil_iff]
    exact render_ne_nil _ _
  obtain ⟨front, hfront⟩ := hending
  unfold GlobMatches
  rw [htext, hsteps, hanchor, steps_append_slash, hstar.steps_eq]
  refine ⟨isAbsolute_append_slash hne _, ?_⟩
  -- the star takes what stands before the extension, and the other steps match themselves
  have hlast : List.Forall₂ Wild ['*' :: sourceExtension] [name.toList] :=
    .cons (hfront ▸ Wild.star_append front sourceExtension) .nil
  exact List.rel_append (List.forall₂_same.mpr fun c _ => Wild.refl c) hlast

end Compile

end Packwright
