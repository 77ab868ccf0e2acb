import Packwright.Proofs.SourceMap.Places
import Packwright.Proofs.SourceMap.Segments

/-!
# Maps move with their code

After patches that stay within their lines, a segment designates the character that it designated
before, wherever that has come to stand.

* `shiftColumn_shiftsByLine`: what a map is told about the patches is what they do to places.
* `moved_of_kept`: a character that no patch replaces is in the patched code, at a place that the
  patches before it on its line have moved; its first byte there has the origin that it should have.
* `shiftText_aligned` puts both together.
-/

namespace Packwright.SourceMap

open Packwright.Text
open Packwright.Patch

-- sums start at the zero of the core library, whatever other instances are in scope
attribute [local instance (high)] Zero.ofOfNat0

/-! ## What a map is told about patches -/

/-- What one patch adds to the shifts of its line. -/
def addShift (source : List UInt8) (lines : Dictionary Int (List Shift)) (p : Patch) :
    Dictionary Int (List Shift) :=
  let (line, shift) := shiftOf source (lineStarts source) p
  if shift.delta = 0 then lines
  else Dictionary.put lines line ((Dictionary.get? lines line).getD [] ++ [shift])

/-- The shifts are collected patch by patch, in the order of their places. -/
theorem shiftsByLine_eq (source : List UInt8) (ps : List Patch) :
    shiftsByLine source ps = (sortPatches ps).foldl (addShift source) [] := rfl

variable {source : List UInt8}

/-- Shifts behind one another add up. -/
theorem shiftColumn_append (first second : List Shift) (column : Int) :
    shiftColumn (first ++ second) column =
      shiftColumn first column + (shiftColumn second column - column) := by
  unfold shiftColumn
  rw [List.filter_append, List.map_append, List.sum_append]
  omega

/-- A patch moves the places that it should move. -/
theorem shiftColumn_addShift (lines : Dictionary Int (List Shift)) (p : Patch) (place : Place) :
    shiftColumn ((Dictionary.get? (addShift source lines p) place.line).getD []) place.column =
      shiftColumn ((Dictionary.get? lines place.line).getD []) place.column +
        pushAt source place p := by
  unfold addShift pushAt pushOn
  generalize shiftOf source (lineStarts source) p = at_
  obtain ⟨line, shift⟩ := at_
  dsimp only
  -- a patch that moves nothing is not recorded
  by_cases hdelta : shift.delta = 0
  · rw [if_pos hdelta, hdelta, ite_self, ite_self, Int.add_zero]
  · rw [if_neg hdelta]
    by_cases hline : line = (place.line : Int)
    · subst hline
      rw [Dictionary.get?_put_self, if_pos rfl]
      show shiftColumn (_ ++ [shift]) _ = _
      rw [shiftColumn_append]
      have hone : shiftColumn [shift] place.column - place.column =
          if shift.column ≤ place.column then shift.delta else 0 := by
        unfold shiftColumn
        by_cases hle : shift.column ≤ place.column
        · rw [if_pos hle, List.filter_cons_of_pos (by simpa using hle)]
          simp only [List.filter_nil, List.map_cons, List.map_nil, List.sum_cons, List.sum_nil]
          omega
        · rw [if_neg hle, List.filter_cons_of_neg (by simpa using hle)]
          simp
      rw [hone]
    · rw [Dictionary.get?_put_of_ne _ _ (Ne.symm hline), if_neg hline, ite_self, Int.add_zero]

/-- **What a map is told about patches is what they do to places.** -/
theorem shiftColumn_shiftsByLine (source : List UInt8) (ps : List Patch) (place : Place) :
    shiftColumn ((Dictionary.get? (shiftsByLine source ps) place.line).getD []) place.column =
      place.column + ((sortPatches ps).map (pushAt source place)).sum := by
  -- the shifts collected so far must be in the statement, for the induction on the patches
  have hfold : ∀ qs lines,
      shiftColumn ((Dictionary.get? (List.foldl (addShift source) lines qs) place.line).getD [])
        place.column =
      shiftColumn ((Dictionary.get? lines place.line).getD []) place.column +
        (qs.map (pushAt source place)).sum := by
    intro qs
    induction qs with
    | nil => simp
    | cons p rest ih =>
      intro lines
      rw [List.foldl_cons, ih, shiftColumn_addShift, List.map_cons, List.sum_cons]
      omega
  rw [shiftsByLine_eq, hfold]
  simp [Dictionary.get?, shiftColumn]

/-- No line has its shifts in two places. -/
theorem nodup_keys_shiftsByLine (source : List UInt8) (ps : List Patch) :
    (Dictionary.keys (shiftsByLine source ps)).Nodup := by
  have hfold : ∀ qs lines, (Dictionary.keys lines).Nodup →
      (Dictionary.keys (List.foldl (addShift source) lines qs)).Nodup := by
    intro qs
    induction qs with
    | nil => exact fun _ h => h
    | cons p rest ih =>
      intro lines h
      refine ih _ ?_
      -- a line is entered once; further shifts on it replace the entry
      unfold addShift
      dsimp only
      split
      · exact h
      · exact Dictionary.nodup_keys_put h _ _
  rw [shiftsByLine_eq]
  exact hfold _ [] List.nodup_nil

/-- No offset of some code lies before its first line. -/
theorem lineOf_nonneg (source : List UInt8) {offset : Int} (h : 0 ≤ offset) :
    0 ≤ lineOf (lineStarts source) offset := by
  have hfirst : 0 ∈ (lineStarts source).filter fun (start : Nat) => (start : Int) ≤ offset :=
    List.mem_filter.mpr ⟨List.mem_cons_self, by simpa using h⟩
  have hpos := List.length_pos_of_mem hfirst
  unfold lineOf
  omega

/-- No patch that starts in some code shifts what is before its first line. -/
theorem nonneg_of_mem_shiftsByLine {ps : List Patch} (hps : ∀ p ∈ sortPatches ps, 0 ≤ p.start) :
    ∀ entry ∈ shiftsByLine source ps, 0 ≤ entry.1 := by
  have hfold : ∀ qs : List Patch, (∀ p ∈ qs, 0 ≤ p.start) →
      ∀ lines : Dictionary Int (List Shift), (∀ entry ∈ lines, 0 ≤ entry.1) →
      ∀ entry ∈ List.foldl (addShift source) lines qs, 0 ≤ entry.1 := by
    intro qs
    induction qs with
    | nil => exact fun _ _ h => h
    | cons p rest ih =>
      intro hqs lines h
      obtain ⟨hp, hrest⟩ := List.forall_mem_cons.mp hqs
      refine ih hrest _ ?_
      -- the line of a patch is counted from the start of the text
      unfold addShift
      dsimp only
      split
      · exact h
      · intro entry hentry
        rcases Dictionary.mem_put hentry with rfl | hold
        · exact lineOf_nonneg source hp
        · exact h entry hold
  rw [shiftsByLine_eq]
  exact hfold _ hps [] (by simp)

/-- The lines of patches that fit are lines of the code. -/
theorem lines_shiftsByLine {code : List Char} {ps : List Patch}
    (hps : ∀ p ∈ sortPatches ps, FitsLine code p ∧ p.start ≤ p.stop) :
    ∀ entry ∈ shiftsByLine (Utf8.encodeChars code) ps, 0 ≤ entry.1 := by
  refine nonneg_of_mem_shiftsByLine fun p hp => ?_
  obtain ⟨hfits, hle⟩ := hps p hp
  obtain ⟨before, removed, after, hr⟩ := hfits.exists_replaces hle
  rw [hr.start_eq]
  exact Int.natCast_nonneg _

/-! ## Where a character goes -/

/-- Whether the character at an index of some code is the one at an index of the patched code: its
first byte there comes from its first byte here. -/
structure ComesTo (code : List Char) (ps : List Patch) (patched : List Char) (i j : Nat) : Prop where
  char_eq : patched[j]? = code[i]?
  origin : ∃ origins, Patch.origins (Utf8.encodeChars code) ps = .ok origins ∧
    origins[Utf8.size (patched.take j)]? = some (some (Utf8.size (code.take i)))

def numbered (bytes : List UInt8) : List (UInt8 × Option Nat) :=
  bytes.zip ((List.range bytes.length).map some)

theorem map_fst_numbered (bytes : List UInt8) : (numbered bytes).map Prod.fst = bytes :=
  List.map_fst_zip (by simp)

theorem map_snd_numbered (bytes : List UInt8) :
    (numbered bytes).map Prod.snd = (List.range bytes.length).map some :=
  List.map_snd_zip (by simp)

def encodeNumbered (text : String) : List (UInt8 × Option Nat) :=
  (Utf8.encode text).map fun byte => (byte, none)

/-- Inserted bytes are those of the text. -/
theorem map_fst_encodeNumbered (text : String) :
    (encodeNumbered text).map Prod.fst = Utf8.encode text := by
  unfold encodeNumbered
  rw [List.map_map]
  exact List.map_id _

theorem map_snd_encodeNumbered (text : String) :
    (encodeNumbered text).map Prod.snd = (Utf8.encode text).map fun _ => none := by
  unfold encodeNumbered
  rw [List.map_map]
  rfl

/-- Patches that are accepted for bytes are accepted for numbered bytes, and put in order both the
bytes and their offsets. -/
theorem exists_numbered {bytes out : List UInt8} {ps : List Patch}
    (h : applyToBytes bytes ps = .ok out) :
    ∃ marked, applyPatches encodeNumbered (numbered bytes) ps = .ok marked ∧
      marked.map Prod.fst = out ∧ Patch.origins bytes ps = .ok (marked.map Prod.snd) := by
  have hlength : (numbered bytes).length = bytes.length := by
    simp [numbered]
  have hrange : ((List.range bytes.length).map some).length = bytes.length := by
    simp
  unfold applyToBytes applyPatches at h
  obtain ⟨marked, hmarked⟩ := exists_applyFrom encodeNumbered h (numbered bytes)
  refine ⟨marked, ?_, ?_, ?_⟩
  · unfold applyPatches
    rw [hlength]
    exact hmarked
  · -- applying patches does not look at the bytes, so it commutes with forgetting the numbers
    have hfst := applyFrom_map map_fst_encodeNumbered hmarked
    rw [map_fst_numbered, h] at hfst
    exact (Except.ok.inj hfst).symm
  · have hsnd := applyFrom_map map_snd_encodeNumbered hmarked
    rw [map_snd_numbered] at hsnd
    unfold Patch.origins applyPatches
    rw [hrange]
    exact hsnd

/-- The byte of a character that is kept has the origin that it should have. -/
theorem origin_of_kept {before behind before' : List Char} {c : Char} {ps : List Patch}
    {out : List UInt8}
    (h : applyToBytes (Utf8.encodeChars (before ++ c :: behind)) ps = .ok out)
    (hkept : ∀ p ∈ sortPatches ps,
      ¬(p.start ≤ Utf8.size before ∧ (Utf8.size before : Int) < p.stop))
    (hedits : Edits [] before (upTo (sortPatches ps) (Utf8.size before)) before') :
    ∃ origins, Patch.origins (Utf8.encodeChars (before ++ c :: behind)) ps = .ok origins ∧
      origins[Utf8.size before']? = some (some (Utf8.size before)) := by
  obtain ⟨marked, hmarked, _, horigins⟩ := exists_numbered h
  refine ⟨_, horigins, ?_⟩
  generalize hbytes : Utf8.encodeChars (before ++ c :: behind) = bytes at *
  have hlt : Utf8.size before < bytes.length := by
    have hpos := c.utf8Size_pos
    rw [← hbytes, Utf8.length_encodeChars, Utf8.size_append, Utf8.size_cons]
    omega
  have hx : (numbered bytes)[Utf8.size before - 0]? =
      some (bytes[Utf8.size before], some (Utf8.size before)) := by
    unfold numbered
    rw [Nat.sub_zero, List.getElem?_zip_eq_some]
    simp [hlt]
  have hfrom : applyFrom encodeNumbered (numbered bytes).length ((0 : Nat) : Int) (numbered bytes)
      (sortPatches ps) = .ok marked := hmarked
  obtain ⟨front, back, rfl, hfront⟩ := applyFrom_split hfrom (Nat.zero_le _) hx hkept
  -- the bytes before the character are those that the edit of the text before it makes
  have hfst := applyFrom_map map_fst_encodeNumbered hfront
  have htake : ((numbered bytes).take (Utf8.size before - 0)).map Prod.fst =
      Utf8.encodeChars before := by
    rw [List.map_take, map_fst_numbered, Nat.sub_zero, ← hbytes, Utf8.take_encodeChars]
  have hmade := hedits.applyFrom_eq
  rw [htake] at hfst
  have hsame : front.map Prod.fst = Utf8.encodeChars before' :=
    Except.ok.inj (hfst.symm.trans hmade)
  have hlength : front.length = Utf8.size before' := by
    rw [← List.length_map (f := Prod.fst), hsame, Utf8.length_encodeChars]
  rw [← hlength, List.map_append, List.getElem?_append_right (by simp), List.length_map, Nat.sub_self]
  rfl

theorem start_le_stop_of_applyFrom {length cursor : Int} {rest out : List UInt8} {ps : List Patch}
    (h : applyFrom Utf8.encode length cursor rest ps = .ok out) {p : Patch} (hp : p ∈ ps) :
    p.start ≤ p.stop :=
  (bounds_of_applyFrom h hp).2.1

/-- The patches up to a place are those that count there. -/
theorem sum_pushAt_eq {text before after : List Char} (htext : text = before ++ after)
    {qs : List Patch} (hqs : ∀ p ∈ qs, FitsLine text p ∧ p.start ≤ p.stop) :
    (qs.map (pushAt (Utf8.encodeChars text) (Place.start.after before))).sum =
      ((upTo qs (Utf8.size before)).map
        (pushOn (Utf8.encodeChars text) (Place.start.after before).line)).sum := by
  induction qs with
  | nil => rfl
  | cons p rest ih =>
    have hp := hqs p List.mem_cons_self
    rw [List.map_cons, List.sum_cons, ih fun q hq => hqs q (List.mem_cons_of_mem _ hq),
      pushAt_eq htext hp.1 hp.2]
    unfold upTo
    -- a patch behind the place pushes nothing
    by_cases hle : p.start ≤ Utf8.size before
    · rw [if_pos hle, List.filter_cons_of_pos (by simpa using hle), List.map_cons, List.sum_cons]
    · rw [if_neg hle, List.filter_cons_of_neg (by simpa using hle), Int.zero_add]

/-- **A character that is kept comes to the place that the map is told.** -/
theorem moved_of_kept {code : List Char} {ps : List Patch} {out : List UInt8}
    (h : applyToBytes (Utf8.encodeChars code) ps = .ok out) (hps : ∀ p ∈ ps, FitsLine code p)
    {patched : List Char} (hedits : Edits [] code (sortPatches ps) patched) {i : Nat} (hi : i < code.length)
    (hkept : ∀ p ∈ sortPatches ps,
      ¬(p.start ≤ Utf8.size (code.take i) ∧ (Utf8.size (code.take i) : Int) < p.stop)) :
    ∃ j, j < patched.length ∧ ComesTo code ps patched i j ∧
      (placeAt patched j).line = (placeAt code i).line ∧
      ((placeAt patched j).column : Int) = (placeAt code i).column +
        ((sortPatches ps).map (pushAt (Utf8.encodeChars code) (placeAt code i))).sum := by
  have hcode : code = code.take i ++ code[i] :: code.drop (i + 1) := by
    rw [← List.drop_eq_getElem_cons hi, List.take_append_drop]
  unfold placeAt
  generalize hbefore : code.take i = before at *
  generalize code.drop (i + 1) = behind at *
  have hlength : before.length = i := by
    rw [← hbefore, List.length_take]
    omega
  -- no patch replaces the character, so the edits fall apart in front of it
  obtain ⟨before', behind', hpatched, hedits'⟩ := hedits.split hcode hkept
  rw [List.nil_append] at hedits'
  have htake : patched.take before'.length = before' := by
    rw [hpatched, List.take_left]
  have hget : patched[before'.length]? = code[i]? := by
    rw [hpatched, List.getElem?_append_right (Nat.le_refl _), Nat.sub_self,
      List.getElem?_eq_getElem hi]
    rfl
  have hsum := sum_pushAt_eq hcode (fitsLine_of_mem_sortPatches h hps)
  -- what is in front of the character is edited by the patches that start there
  obtain ⟨hline, hcolumn⟩ := Edits.place hedits' hcode (q := Place.start) (d := 0) rfl rfl
  refine ⟨before'.length, ?_, ⟨hget, ?_⟩, ?_, ?_⟩
  · rw [hpatched]
    simp
  · rw [htake, hbefore]
    rw [hcode] at h ⊢
    exact origin_of_kept h hkept hedits'
  · rw [htake]
    exact hline
  · rw [htake, hsum, hcolumn, ite_self, Int.add_zero]
    rfl

/-- A newline is kept, since no patch that fits covers one. -/
theorem moved_of_newline {code : List Char} {ps : List Patch} {out : List UInt8}
    (h : applyToBytes (Utf8.encodeChars code) ps = .ok out) (hps : ∀ p ∈ ps, FitsLine code p)
    {patched : List Char} (hedits : Edits [] code (sortPatches ps) patched) {i : Nat}
    (hi : code[i]? = some '\n') :
    ∃ j, j < patched.length ∧ ComesTo code ps patched i j ∧
      (placeAt patched j).line = (placeAt code i).line ∧
      ((placeAt patched j).column : Int) = (placeAt code i).column +
        ((sortPatches ps).map (pushAt (Utf8.encodeChars code) (placeAt code i))).sum := by
  obtain ⟨hlt, hnewline⟩ := List.getElem?_eq_some_iff.mp hi
  -- a patch that fits its line does not take the newline
  have hcode : code = code.take i ++ '\n' :: code.drop (i + 1) := by
    rw [← hnewline, ← List.drop_eq_getElem_cons hlt, List.take_append_drop]
  refine moved_of_kept h hps hedits hlt fun p hp => ?_
  have hfits := hps p (mem_of_mem_sortPatches hp)
  rw [hcode] at hfits
  exact hfits.not_covers_newline

/-! ## Maps move with their code -/

/-- What becomes of a map: nothing but columns changes, and segments follow their characters, unless
these are replaced. -/
structure Aligned (code : List Char) (ps : List Patch) (patched : List Char)
    (m m' : Mappings) : Prop where
  same : List.Forall₂ (List.Forall₂ SameButColumn) m m'
  designates : ∀ line segment i, Designates m line segment code i →
    (∀ p ∈ sortPatches ps,
      ¬(p.start ≤ Utf8.size (code.take i) ∧ (Utf8.size (code.take i) : Int) < p.stop)) →
    ∃ j, ComesTo code ps patched i j ∧ Designates m' line segment patched j

/-- A map is written unless its contents are no list, whatever its mappings are. -/
theorem toText_isSome_eq (m : SourceMap) (mappings : String) :
    ({ m with mappings := mappings } : SourceMap).toText.toOption.isSome =
      m.toText.toOption.isSome := by
  unfold toText fields
  cases m.sourcesContent.isNull with
  | true => rfl
  | false =>
    cases elements m.sourcesContent with
    | error e => rfl
    | ok items => rfl

/-- **Maps move with their code.** A map that is read is moved and written again, with the mappings
that belong to the patched code. -/
theorem shiftText_aligned {document code : String} {ps : List Patch} {m : SourceMap}
    {mappings : Mappings} {out : List UInt8} (hdocument : ofText document = .ok m)
    (hmappings : decodeMappings m.mappings.toList = .ok mappings)
    (happlied : applyToBytes (Utf8.encode code) ps = .ok out)
    (hfits : ∀ p ∈ ps, FitsLine code.toList p) :
    ∃ (moved : SourceMap) (mappings' : Mappings) (patched : List Char),
      shiftText document code ps = moved.toText ∧
      moved = { m with mappings := moved.mappings } ∧
      moved.toText.toOption.isSome = m.toText.toOption.isSome ∧
      decodeMappings moved.mappings.toList = .ok mappings' ∧
      out = Utf8.encodeChars patched ∧
      Aligned code.toList ps patched mappings mappings' := by
  have hbytes : applyToBytes (Utf8.encodeChars code.toList) ps = .ok out := happlied
  have hfrom : applyFrom Utf8.encode (Utf8.size ([] ++ code.toList)) (Utf8.size [])
      (Utf8.encodeChars code.toList) (sortPatches ps) = .ok out := by
    rw [List.nil_append, ← Utf8.length_encodeChars]
    exact hbytes
  obtain ⟨patched, hout, hedits⟩ := edits_of_applyFrom hfrom fun p hp =>
    hfits p (mem_of_mem_sortPatches hp)
  have hsorted : ∀ p ∈ sortPatches ps, FitsLine code.toList p ∧ p.start ≤ p.stop := fun p hp =>
    ⟨hfits p (mem_of_mem_sortPatches hp), start_le_stop_of_applyFrom hfrom hp⟩
  have hlines := lines_shiftsByLine hsorted
  have hnodup := nodup_keys_shiftsByLine (Utf8.encodeChars code.toList) ps
  obtain ⟨text, hshift, hdecoded⟩ := shiftMappings_spec hmappings hlines
  -- every kept character moves by the pushes of the patches before it on its line
  have haligned : Aligned code.toList ps patched mappings
      (moveLines (shiftsByLine (Utf8.encodeChars code.toList) ps) mappings) := by
    refine ⟨same_moveLines hlines hnodup mappings, ?_⟩
    rintro line segment i ⟨hi, rfl, hcolumn⟩ hkept
    obtain ⟨j, hj, hcomes, hl, hc⟩ := moved_of_kept hbytes hfits hedits hi hkept
    refine ⟨j, hcomes, hj, hl.symm, ?_⟩
    rw [columnAt?_moveLines hlines hnodup hcolumn, shiftColumn_shiftsByLine, hc]
  have hmoved : ∃ moved : SourceMap, m.shift (Utf8.encodeChars code.toList) ps = .ok moved ∧
      moved = { m with mappings := moved.mappings } ∧
      decodeMappings moved.mappings.toList =
        .ok (moveLines (shiftsByLine (Utf8.encodeChars code.toList) ps) mappings) := by
    unfold SourceMap.shift
    -- without a shift the map is handed on as it is
    cases hshifts : shiftsByLine (Utf8.encodeChars code.toList) ps with
    | nil => exact ⟨m, rfl, rfl, hmappings⟩
    | cons entry rest =>
      rw [hshifts] at hshift hdecoded
      simp only [hshift]
      refine ⟨_, rfl, rfl, ?_⟩
      rw [String.toList_ofList]
      exact hdecoded
  obtain ⟨moved, hmoved, hrest, hmappings'⟩ := hmoved
  refine ⟨moved, _, patched, ?_, hrest, ?_, hmappings', hout, haligned⟩
  · unfold shiftText
    rw [hdocument]
    show ((m.shift (Utf8.encodeChars code.toList) ps) >>= fun moved => moved.toText) = _
    rw [hmoved]
    rfl
  · rw [hrest]
    exact toText_isSome_eq m moved.mappings

/-- A mark in front of a call, behind a character of two units. -/
def markBehindSurrogates : Patch :=
  .insertion 5 "/*@__PURE__*/"

/-- The patch of the example stands at a character and stays on its line. -/
theorem fitsLine_markBehindSurrogates : FitsLine "𝒳;f()".toList markBehindSurrogates where
  start := ⟨"𝒳;".toList, "f()".toList, by decide +kernel, by decide +kernel⟩
  stop := ⟨"𝒳;".toList, "f()".toList, by decide +kernel, by decide +kernel⟩
  inserted := by decide +kernel
  removed := by decide +kernel

/-- A call behind a character of four bytes, which is two columns. -/
theorem shiftText_aligned_surrogates :
    ∃ m out, ofText "\x7b\"mappings\":\"AAAA,GAAG\"\x7d" = .ok m ∧
      decodeMappings m.mappings.toList = .ok [[[0, 0, 0, 0], [3, 0, 0, 3]]] ∧
      applyToBytes (Utf8.encode "𝒳;f()") [markBehindSurrogates] = .ok out ∧
      (∀ p ∈ [markBehindSurrogates], FitsLine "𝒳;f()".toList p) ∧
      ∃ (moved : SourceMap) (mappings' : Mappings) (patched : List Char),
        shiftText "\x7b\"mappings\":\"AAAA,GAAG\"\x7d" "𝒳;f()" [markBehindSurrogates] = moved.toText ∧
        moved = { m with mappings := moved.mappings } ∧
        moved.toText.toOption.isSome = m.toText.toOption.isSome ∧
        decodeMappings moved.mappings.toList = .ok mappings' ∧
        out = Utf8.encodeChars patched ∧
        Aligned "𝒳;f()".toList [markBehindSurrogates] patched [[[0, 0, 0, 0], [3, 0, 0, 3]]]
          mappings' := by
  -- the map and the patched bytes, by computation
  have hread : (ofText "\x7b\"mappings\":\"AAAA,GAAG\"\x7d").toOption.map SourceMap.mappings =
      some "AAAA,GAAG" := by decide +kernel
  have hbytes : (applyToBytes (Utf8.encode "𝒳;f()") [markBehindSurrogates]).toOption.isSome =
      true := by
    decide +kernel
  have hfits : ∀ p ∈ [markBehindSurrogates], FitsLine "𝒳;f()".toList p := fun p hp =>
    List.mem_singleton.mp hp ▸ fitsLine_markBehindSurrogates
  cases hdocument : ofText "\x7b\"mappings\":\"AAAA,GAAG\"\x7d" with
  | error e => rw [hdocument] at hread; exact absurd hread (by simp [Except.toOption])
  | ok m =>
    rw [hdocument] at hread
    have hmappings : decodeMappings m.mappings.toList = .ok [[[0, 0, 0, 0], [3, 0, 0, 3]]] := by
      rw [show m.mappings = "AAAA,GAAG" from Option.some.inj hread]
      decide +kernel
    cases happlied : applyToBytes (Utf8.encode "𝒳;f()") [markBehindSurrogates] with
    | error e => rw [happlied] at hbytes; exact absurd hbytes (by simp [Except.toOption])
    | ok out =>
      exact ⟨m, out, rfl, hmappings, rfl, hfits,
        shiftText_aligned hdocument hmappings happlied hfits⟩

end Packwright.SourceMap
