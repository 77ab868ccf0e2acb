import Packwright.Proofs.Annotate.MarkedCalls
import Packwright.Proofs.Annotate.OnlyComments
import Packwright.Proofs.SourceMap.Alignment

/-!
# Annotating keeps lines

Code that can be read can be annotated, and every line of it stays the line that it was.

* `StaysOnLine` is what all patches of the annotator have in common: they put something in that has
  no newline, and what they take out is a semicolon at most.
* `exists_applied` rules out that such patches overlap. A patch that ends behind its start takes out
  a semicolon, so what else starts there takes out the same one and is the same patch, of which
  sorting leaves one.
* `KeepsLines` holds of any patches that fit into their lines.
* `Promised` is what is asked of the reader, and `staysOnLine_of_mem_patches` goes by the kind of
  patch that a call has.
-/

namespace Packwright.Annotate

open Packwright.Patch
open Packwright.SourceMap (ComesTo placeAt moved_of_newline)
open Packwright.Syntax
open Packwright.Text

/-! ## Patches that do not overlap -/

/-- A patch that puts a text in between characters, but not in front of a semicolon, or makes the
sign for a value of a semicolon. -/
inductive StaysOnLine (code : List Char) : Patch → Prop
  | insertion {place : Nat} {text : String} (boundary : IsBoundary code place)
      (apart : (Utf8.encodeChars code)[place]? ≠ some 0x3b) (inserted : '\n' ∉ text.toList) :
      StaysOnLine code (.insertion place text)
  | sign {place : Nat} (semicolon : (Utf8.encodeChars code)[place]? = some 0x3b) :
      StaysOnLine code (.replacement place (place + 1) " =")

variable {code : List Char} {ps : List Patch} {p : Patch}

/-- A patch that stays on its line replaces a piece of the text, with nothing cut in the middle of a
character. -/
theorem StaysOnLine.exists_replaces (h : StaysOnLine code p) :
    ∃ before removed after, Replaces code p before removed after := by
  cases h with
  | insertion boundary apart inserted =>
    obtain ⟨before, after, hcode, hplace⟩ := boundary
    refine ⟨before, [], after, ?_, hplace, ?_, inserted, List.not_mem_nil⟩
    · rw [List.append_nil]
      exact hcode
    · rw [List.append_nil]
      exact hplace
  | @sign place semicolon =>
    -- the byte of a semicolon is a character of its own
    obtain ⟨before, c, after, hcode, hplace, hc⟩ := Utf8.exists_char_of_getElem? (by decide) semicolon
    obtain rfl : c = ';' := Char.toNat_inj.mp hc
    have hinserted : '\n' ∉ " =".toList := by decide
    refine ⟨before, [';'], after, ?_, ?_, ?_, hinserted, by decide⟩
    · rw [hcode]
      simp
    · show (place : Int) = Utf8.size before
      omega
    · show ((place + 1 : Nat) : Int) = Utf8.size (before ++ [';'])
      have hone : Utf8.size [';'] = 1 := rfl
      rw [Utf8.size_append]
      omega

/-- Where a semicolon is, nothing starts but the patch that replaces it. -/
theorem StaysOnLine.eq_sign {place : Nat} (h : StaysOnLine code p)
    (semicolon : (Utf8.encodeChars code)[place]? = some 0x3b) (hstart : p.start = place) :
    p = .replacement place (place + 1) " =" := by
  cases h with
  | @insertion place' text boundary apart inserted =>
    have hplace : place' = place := Int.ofNat_inj.mp hstart
    rw [hplace] at apart
    exact absurd semicolon apart
  | @sign place' semicolon' =>
    have hplace : place' = place := Int.ofNat_inj.mp hstart
    rw [hplace]

theorem StaysOnLine.bounds (h : StaysOnLine code p) :
    0 ≤ p.start ∧ p.start ≤ p.stop ∧ p.stop ≤ (Utf8.encodeChars code).length := by
  obtain ⟨before, removed, after, hr⟩ := h.exists_replaces
  rw [Utf8.length_encodeChars, hr.text_eq, hr.start_eq, hr.stop_eq, Utf8.size_append _ after,
    Utf8.size_append before]
  omega

/-- **Patches that stay on their lines do not overlap.** -/
theorem exists_applied (hps : ∀ p ∈ ps, StaysOnLine code p) :
    ∃ out, applyToBytes (Utf8.encodeChars code) ps = .ok out := by
  apply exists_applyFrom_iff.mpr
  refine ⟨fun p hp => (hps p (mem_of_mem_sortPatches hp)).bounds, ?_⟩
  rw [List.pairwise_iff_forall_sublist]
  intro p q hpair
  have hle : p.start ≤ q.start := List.pairwise_iff_forall_sublist.mp (pairwise_sortPatches ps) hpair
  have hp := hps p (mem_of_mem_sortPatches (hpair.subset List.mem_cons_self))
  cases hp with
  | insertion boundary apart inserted => exact hle
  | @sign place semicolon =>
    show ((place + 1 : Nat) : Int) ≤ q.start
    by_contra hlt
    have hstart : q.start = place := by
      have hplace : (place : Int) ≤ q.start := hle
      omega
    -- then there would be two patches where sorting leaves one
    have hone := sortPatches_filter_eq (q := .replacement place (place + 1) " =")
      fun r hr hrstart => (hps r hr).eq_sign semicolon hrstart
    have htwo := hpair.filter fun r => decide (r.start = (place : Int))
    rw [show (sortPatches ps).filter (fun r => decide (r.start = (place : Int))) = _ from hone] at htwo
    have hlength := htwo.length_le
    have hfirst : (Patch.replacement place (place + 1) " =").start = place := rfl
    rw [List.filter_cons_of_pos (by simp [hfirst]), List.filter_cons_of_pos (by simp [hstart])] at hlength
    split at hlength
    · exact absurd hlength (by simp)
    · exact absurd hlength (by simp)

/-! ## Lines that stay -/

/-- Whether patched code has the lines of the code: it has as many newlines, and each newline of the
code is in it, at the end of the same line. -/
structure KeepsLines (code : List Char) (ps : List Patch) (patched : List Char) : Prop where
  count_eq : patched.count '\n' = code.count '\n'
  newlines : ∀ i, code[i]? = some '\n' →
    ∃ j, ComesTo code ps patched i j ∧ (placeAt patched j).line = (placeAt code i).line

/-- Edits that take no newline and bring none in keep the number of lines. -/
theorem count_newline_of_edits {done rest out : List Char} (h : Edits done rest ps out) :
    out.count '\n' = rest.count '\n' := by
  induction h with
  | keep done rest => rfl
  | edit hstart hstop hinserted hremoved hmore ih =>
    simp only [List.count_append, List.count_eq_zero.mpr hinserted, List.count_eq_zero.mpr hremoved, ih]

/-- **Patches that fit into their lines keep the lines.** -/
theorem keepsLines_of_fitsLine {out : List UInt8}
    (h : applyToBytes (Utf8.encodeChars code) ps = .ok out) (hps : ∀ p ∈ ps, FitsLine code p) :
    ∃ patched, out = Utf8.encodeChars patched ∧ KeepsLines code ps patched := by
  obtain ⟨patched, hout, hedits⟩ := exists_edits h hps
  refine ⟨patched, hout, count_newline_of_edits hedits, fun i hi => ?_⟩
  obtain ⟨j, -, hcomes, hline, -⟩ := moved_of_newline h hps hedits hi
  exact ⟨j, hcomes, hline⟩

/-! ## The patches of a program -/

/-- What the reader of a program promises: calls and blocks have no false bytes at their edges, and a
name has no newline. -/
structure Promised (code : List UInt8) (tree : Node) : Prop extends Punctuated code tree where
  names : ∀ n ∈ tree.nodes, n.kind = .identifier → '\n' ∉ n.leafText

instance (code : List UInt8) (tree : Node) : Decidable (Promised code tree) :=
  decidable_of_iff
    (Punctuated code tree ∧ ∀ n ∈ tree.nodes, n.kind = .identifier → '\n' ∉ n.leafText)
    ⟨fun h => ⟨h.1, h.2⟩, fun h => ⟨h.toPunctuated, h.names⟩⟩

variable {tree call : Node}

/-- A program with a marked call is not empty, so the call starts at a character. -/
theorem boundary_of_isMarked (hread : parse? code = some tree) (hcall : call ∈ visitedCalls tree)
    (hmarked : isMarked call = true) : IsBoundary code call.start := by
  have hne : code ≠ [] := by
    rintro rfl
    have hplace := mem_markedPlaces.mpr ⟨call, hcall, hmarked, rfl⟩
    rw [markedPlaces_empty hread] at hplace
    exact absurd hplace List.not_mem_nil
  obtain ⟨before, rest, hcode, -, hplace⟩ := atChar_of_mem_visitedCalls hread hne hcall
  exact ⟨before, rest, hcode, by omega⟩

/-- The two patches of a declaration stay on their lines: a semicolon for a sign, and a return of
one name before a closing brace. -/
theorem staysOnLine_of_mem_enumPatches (h : Promised (Utf8.encodeChars code) tree)
    (hcall : call ∈ tree.nodes) (hp : p ∈ enumPatches (Utf8.encodeChars code) call) :
    StaysOnLine code p := by
  obtain ⟨t, parameter, body, hfills⟩ := exists_fills (List.ne_nil_of_mem hp)
  rw [enumPatches_of_fills hfills, fusing] at hp
  rcases List.mem_cons.mp hp with rfl | hlast
  · exact .sign hfills.semicolon_byte
  · rw [List.mem_singleton.mp hlast]
    obtain ⟨hbody, hkind⟩ := hfills.body_mem_nodes
    -- the block ends in a brace, which is a character by itself and not the newline
    have hbrace := h.blocks body (Node.nodes_subset_of_mem hcall hbody) hkind
    obtain ⟨before, c, after, hcode, hplace, -⟩ := Utf8.exists_char_of_getElem? (by decide) hbrace
    obtain ⟨n, hn, hname, rfl⟩ := hfills.exists_parameter
    -- the return names the parameter, and names have no newline
    have hline := h.names n (Node.nodes_subset_of_mem hcall hn) hname
    refine .insertion ⟨before, c :: after, hcode, by omega⟩ ?_ ?_
    · rw [hbrace]
      decide
    · simp [returning, hline]

/-- **Every patch of a program stays on its line.** -/
theorem staysOnLine_of_mem_patches (hread : parse? code = some tree)
    (h : Promised (Utf8.encodeChars code) tree) (hp : p ∈ patches (Utf8.encodeChars code) tree) :
    StaysOnLine code p := by
  obtain ⟨call, hcall, hcallPatch⟩ := List.mem_flatMap.mp hp
  obtain ⟨hmem, hkind⟩ := mem_nodes_of_mem_visitedCalls hcall
  unfold callPatches at hcallPatch
  split at hcallPatch
  · rename_i hmarked
    rcases List.mem_append.mp hcallPatch with henum | hmark
    · exact staysOnLine_of_mem_enumPatches h hmem henum
    · rw [List.mem_singleton.mp hmark]
      exact .insertion (boundary_of_isMarked hread hcall hmarked) (h.calls call hmem hkind).1
        (by decide)
  · exact absurd hcallPatch List.not_mem_nil

/-! ## Annotated code -/

section Annotated

variable {code annotated : String}

/-- Without patches there is nothing to do; otherwise code that can be patched is annotated, and its
map is moved. -/
theorem annotate_eq_of_applied (hread : parse? code.toList = some tree)
    (happlied : applyToBytes (Utf8.encode code) (patches (Utf8.encode code) tree) =
      .ok (Utf8.encode annotated)) :
    annotate code none = .ok (annotated, none) ∧
      ∀ document, (∃ moved, annotate code (some document) = .ok (annotated, some moved)) ∨
        ∃ cause, annotate code (some document) = .error (.sourceMap cause) := by
  have hpatches : patchesOfCode code = .ok (patches (Utf8.encode code) tree) := by
    rw [patchesOfCode, hread]
  have hcode : applyToCode code (patches (Utf8.encode code) tree) = .ok annotated := by
    unfold applyToCode
    simp only [happlied, Utf8.decode_encode]
  unfold annotate
  simp only [hpatches, hcode, bind, Except.bind, pure, Except.pure]
  generalize patches (Utf8.encode code) tree = ps at *
  cases ps with
  | nil =>
    -- nothing is put in, so the annotated code is the code
    have hsame : applyToCode code [] = .ok code := by
      have hnone : applyToBytes (Utf8.encode code) [] = .ok (Utf8.encode code) := by
        simp [applyToBytes, applyPatches, sortPatches, dropRepeats, applyFrom]
      unfold applyToCode
      simp only [hnone, Utf8.decode_encode]
    obtain rfl : code = annotated := Except.ok.inj (hsame.symm.trans hcode)
    exact ⟨rfl, fun document => Or.inl ⟨document, rfl⟩⟩
  | cons p more =>
    refine ⟨rfl, fun document => ?_⟩
    cases SourceMap.shiftText document code (p :: more) with
    | ok moved => exact Or.inl ⟨moved, rfl⟩
    | error cause => exact Or.inr ⟨cause, rfl⟩

/-- **Annotating keeps lines.** The patches of a program do not overlap, and what comes of its bytes
are the bytes of a text with the same lines. So every program is annotated; only a map that comes along
may be refused. -/
theorem annotate_keepsLines (hread : parse? code.toList = some tree)
    (h : Promised (Utf8.encode code) tree) :
    ∃ annotated : String,
      applyToBytes (Utf8.encode code) (patches (Utf8.encode code) tree) =
        .ok (Utf8.encode annotated) ∧
      KeepsLines code.toList (patches (Utf8.encode code) tree) annotated.toList ∧
      annotate code none = .ok (annotated, none) ∧
      ∀ document, (∃ moved, annotate code (some document) = .ok (annotated, some moved)) ∨
        ∃ cause, annotate code (some document) = .error (.sourceMap cause) := by
  have hstays : ∀ p ∈ patches (Utf8.encode code) tree, StaysOnLine code.toList p := fun p hp =>
    staysOnLine_of_mem_patches hread h hp
  obtain ⟨out, hout⟩ := exists_applied hstays
  -- patches that fit their lines never meet in the middle of a character
  obtain ⟨patched, rfl, hlines⟩ := keepsLines_of_fitsLine hout fun p hp => by
    obtain ⟨before, removed, after, hr⟩ := (hstays p hp).exists_replaces
    exact hr.fitsLine
  have happlied : applyToBytes (Utf8.encode code) (patches (Utf8.encode code) tree) =
      .ok (Utf8.encode (String.ofList patched)) := by
    unfold Utf8.encode
    rw [String.toList_ofList]
    exact hout
  refine ⟨String.ofList patched, happlied, ?_, annotate_eq_of_applied hread happlied⟩
  rw [String.toList_ofList]
  exact hlines

end Annotated

/-- A variable that is filled on its next line, with a character of two bytes in between. -/
def filledOnNextLine : String := "var E;\n(function(E)\x7b\nf('é')\n\x7d)(E);\ng(h())"

/-- An enum whose function stands on the line below its declaration: three patches, on two lines. -/
theorem annotate_keepsLines_filledOnNextLine :
    ∃ (tree : Node) (annotated : String), parse? filledOnNextLine.toList = some tree ∧
      Promised (Utf8.encode filledOnNextLine) tree ∧
      applyToBytes (Utf8.encode filledOnNextLine) (patches (Utf8.encode filledOnNextLine) tree) =
        .ok (Utf8.encode annotated) ∧
      KeepsLines filledOnNextLine.toList (patches (Utf8.encode filledOnNextLine) tree)
        annotated.toList ∧
      annotate filledOnNextLine none = .ok (annotated, none) := by
  have hchecked : ((parse? filledOnNextLine.toList).any fun tree =>
      decide (Promised (Utf8.encode filledOnNextLine) tree)) = true := by
    decide +kernel
  obtain ⟨tree, hread, hchecks⟩ := (Option.any_eq_true _ _).mp hchecked
  have hpromised := of_decide_eq_true hchecks
  obtain ⟨annotated, happlied, hlines, hannotated, -⟩ := annotate_keepsLines hread hpromised
  exact ⟨tree, annotated, hread, hpromised, happlied, hlines, hannotated⟩

end Packwright.Annotate
