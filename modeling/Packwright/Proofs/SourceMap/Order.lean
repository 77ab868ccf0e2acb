import Mathlib.Data.List.ReduceOption
import Packwright.Proofs.Patch.Ordering
import Packwright.Proofs.SourceMap.Keeping

/-!
# The order of moved columns

A column is moved by what all patches at or before it on its line add. A patch that puts in less than
it takes out moves a column in front of where it starts, if that stands in what vanishes: the patch
strands it. Columns that are not stranded keep their order, and none of them comes to stand in front
of the line.

* `pairwise_precedes`: accepted patches of one line lie apart, also in columns.
* `le_movedColumn` and `movedColumn_mono` are inductions on the patches in order. Both go by the first
  patch that counts at the column: behind it, columns are counted from where its stretch ends.
* `width?_patched`: the end of a line goes where its column goes, so no column is moved beyond it.
* `shift_inOrder` says so of the lines of a map, and `exists_negative_column` is a column that is
  stranded in front of its line.
-/

namespace Packwright.SourceMap

open Packwright.Text
open Packwright.Patch

-- sums start at the zero of the core library, whatever other instances are in scope
attribute [local instance (high)] Zero.ofOfNat0

/-! ## Lines and columns -/

def lineColumns (segments : Segments) : List Int :=
  (columns 0 segments).reduceOption

/-- Whether columns are those of places on a line of some width, from left to right. -/
structure InOrder (width : Nat) (cs : List Int) : Prop where
  nonneg : ∀ c ∈ cs, 0 ≤ c
  sorted : cs.Pairwise (· ≤ ·)
  within : ∀ c ∈ cs, c ≤ width

instance (width : Nat) (cs : List Int) : Decidable (InOrder width cs) :=
  decidable_of_iff ((∀ c ∈ cs, 0 ≤ c) ∧ cs.Pairwise (· ≤ ·) ∧ ∀ c ∈ cs, c ≤ width)
    ⟨fun h => ⟨h.1, h.2.1, h.2.2⟩, fun h => ⟨h.nonneg, h.sorted, h.within⟩⟩

def width? (text : List Char) (line : Nat) : Option Nat :=
  ((splitOn '\n' text)[line]?).map Utf16.units

/-- **A line ends at its width**, in front of a newline or at the end of the text. -/
theorem width?_eq_some_iff {text : List Char} {line width : Nat} : width? text line = some width ↔
    ∃ before behind, text = before ++ behind ∧ Place.start.after before = ⟨line, width⟩ ∧
      (behind = [] ∨ ∃ back, behind = '\n' :: back) := by
  unfold width?
  rw [Option.map_eq_some_iff]
  constructor
  · rintro ⟨piece, hpiece, rfl⟩
    obtain ⟨front, behind, rfl, hnot, rfl, hfront, hbehind⟩ := getElem?_splitOn_iff.mp hpiece
    exact ⟨front ++ piece, behind, rfl, Place.after_lines hnot hfront, hbehind⟩
  · rintro ⟨before, behind, rfl, hplace, hbehind⟩
    -- the text before the place ends in the piece of its line
    obtain ⟨front, piece, rfl, hnot, hfront⟩ := exists_line before
    rw [Place.after_lines hnot hfront, Place.mk.injEq] at hplace
    exact ⟨piece, getElem?_splitOn_iff.mpr ⟨front, behind, rfl, hnot, hplace.1, hfront, hbehind⟩,
      hplace.2⟩

/-! ## Patches on one line -/

/-- The line of a patch, and what it does there. -/
def shiftIn (source : List UInt8) (p : Patch) : Int × Shift :=
  shiftOf source (lineStarts source) p

/-- Whether the stretch of a patch ends in front of another patch of the same line, in columns and
also if what is put in is counted against it. -/
def Precedes (source : List UInt8) (p q : Patch) : Prop :=
  (shiftIn source p).1 = (shiftIn source q).1 →
    (shiftIn source p).2.column ≤ (shiftIn source q).2.column ∧
      ((shiftIn source p).2.column : Int) - (shiftIn source p).2.delta ≤ (shiftIn source q).2.column

variable {code : List Char} {p q : Patch}

/-- A patch that ends before another begins precedes it, on whatever lines they are. -/
theorem precedes_of_le (hp : FitsLine code p ∧ p.start ≤ p.stop)
    (hq : FitsLine code q ∧ q.start ≤ q.stop) (hle : p.stop ≤ q.start) :
    Precedes (Utf8.encodeChars code) p q := by
  obtain ⟨before, removed, after, hr⟩ := hp.1.exists_replaces hp.2
  obtain ⟨before', removed', after', hr'⟩ := hq.1.exists_replaces hq.2
  have htext : before ++ removed ++ after = before' ++ (removed' ++ after') := by
    rw [← List.append_assoc, ← hr.text_eq, hr'.text_eq]
  rw [hr.stop_eq, hr'.start_eq] at hle
  unfold Precedes shiftIn
  rw [shiftOf_eq hr, shiftOf_eq hr']
  intro hline
  -- on one line the order of the bytes is the order of the columns
  have hcolumn := Place.column_le_of_size_le htext (by omega) (by
    rw [place_behind hr]
    exact Int.ofNat.inj hline)
  rw [place_behind hr] at hcolumn
  dsimp only at hcolumn ⊢
  omega

/-- **Accepted patches of one line lie apart.** -/
theorem pairwise_precedes {ps : List Patch} {out : List UInt8}
    (h : applyToBytes (Utf8.encodeChars code) ps = .ok out)
    (hps : ∀ p ∈ sortPatches ps, FitsLine code p ∧ p.start ≤ p.stop) :
    (sortPatches ps).Pairwise (Precedes (Utf8.encodeChars code)) := by
  have hpairwise := (exists_applyFrom_iff.mp ⟨out, h⟩).2
  exact hpairwise.imp_of_mem fun hp hq hle => precedes_of_le (hps _ hp) (hps _ hq) hle

/-! ## Where columns go -/

/-- Where the column of a place goes under patches in order. -/
def movedColumn (source : List UInt8) (qs : List Patch) (place : Place) : Int :=
  place.column + (qs.map (pushAt source place)).sum

/-- Whether a patch moves the column of a place in front of where it starts itself. -/
def Strands (source : List UInt8) (place : Place) (p : Patch) : Prop :=
  (shiftIn source p).1 = place.line ∧ (shiftIn source p).2.column ≤ place.column ∧
    place.column + (shiftIn source p).2.delta < (shiftIn source p).2.column

instance (source : List UInt8) (place : Place) (p : Patch) : Decidable (Strands source place p) :=
  inferInstanceAs (Decidable (_ ∧ _ ∧ _))

variable {source : List UInt8} {qs : List Patch} {place place' : Place}

/-- What a patch does to a column: nothing, unless it is on its line and not beyond it. -/
theorem movedColumn_cons (p : Patch) (qs : List Patch) :
    movedColumn source (p :: qs) place = movedColumn source qs place +
      if (shiftIn source p).1 = place.line ∧ (shiftIn source p).2.column ≤ place.column then
        (shiftIn source p).2.delta
      else 0 := by
  unfold movedColumn pushAt pushOn shiftIn
  rw [List.map_cons, List.sum_cons]
  split_ifs <;> omega

/-- A place before all patches of its line stays. -/
theorem movedColumn_of_lt (h : ∀ p ∈ qs, (shiftIn source p).1 = place.line →
    place.column < (shiftIn source p).2.column) :
    movedColumn source qs place = place.column := by
  induction qs with
  | nil => simp [movedColumn]
  | cons p rest ih =>
    rw [List.forall_mem_cons] at h
    rw [movedColumn_cons, ih h.2, if_neg fun hcounts => ?_, Int.add_zero]
    have := h.1 hcounts.1
    omega

/-- **No column is moved in front of all patches** of its line, unless one of them strands it. -/
theorem le_movedColumn (hapart : qs.Pairwise (Precedes source))
    (hclear : ∀ p ∈ qs, ¬ Strands source place p) {low : Int} (hlow : low ≤ place.column)
    (hqs : ∀ p ∈ qs, (shiftIn source p).1 = place.line → low ≤ (shiftIn source p).2.column) :
    low ≤ movedColumn source qs place := by
  induction qs generalizing low with
  | nil => simpa [movedColumn] using hlow
  | cons p rest ih =>
    rw [List.pairwise_cons] at hapart
    rw [List.forall_mem_cons] at hclear hqs
    rw [movedColumn_cons]
    by_cases hcounts : (shiftIn source p).1 = place.line ∧ (shiftIn source p).2.column ≤ place.column
    · rw [if_pos hcounts]
      obtain ⟨hline, hcolumn⟩ := hcounts
      -- the others start behind what the patch takes out, and so is the column
      have hbehind : ∀ q ∈ rest, (shiftIn source q).1 = place.line →
          ((shiftIn source p).2.column : Int) - (shiftIn source p).2.delta ≤
            (shiftIn source q).2.column := fun q hq hline' =>
        (hapart.1 q hq (hline.trans hline'.symm)).2
      have hkept : ((shiftIn source p).2.column : Int) - (shiftIn source p).2.delta ≤
          place.column := by
        by_contra hnot
        exact hclear.1 ⟨hline, hcolumn, by omega⟩
      have hrest := ih hapart.2 hclear.2 hkept hbehind
      have hfirst := hqs.1 hline
      omega
    · rw [if_neg hcounts, Int.add_zero]
      exact ih hapart.2 hclear.2 hlow hqs.2

/-- **Columns keep their order**, if no patch strands the second one. -/
theorem movedColumn_mono (hapart : qs.Pairwise (Precedes source))
    (hclear : ∀ p ∈ qs, ¬ Strands source place' p) (hline : place.line = place'.line)
    (hle : place.column ≤ place'.column) :
    movedColumn source qs place ≤ movedColumn source qs place' := by
  induction qs with
  | nil => simpa [movedColumn] using hle
  | cons p rest ih =>
    have hpairwise := List.pairwise_cons.mp hapart
    have hrest := ih hpairwise.2 fun q hq => hclear q (List.mem_cons_of_mem _ hq)
    by_cases hbetween : (shiftIn source p).1 = place'.line ∧
        place.column < (shiftIn source p).2.column ∧
        (shiftIn source p).2.column ≤ place'.column
    · -- the first patch between the columns: it starts where the second one goes, or before
      obtain ⟨hp, hlt, hcolumn⟩ := hbetween
      have hfirst : ∀ q ∈ p :: rest, (shiftIn source q).1 = place'.line →
          (shiftIn source p).2.column ≤ (shiftIn source q).2.column := by
        rw [List.forall_mem_cons]
        exact ⟨fun _ => Nat.le_refl _, fun q hq hq' => (hpairwise.1 q hq (hp.trans hq'.symm)).1⟩
      have hsecond := le_movedColumn hapart hclear (Int.ofNat_le.mpr hcolumn) fun q hq hq' =>
        Int.ofNat_le.mpr (hfirst q hq hq')
      have hstays : movedColumn source (p :: rest) place = place.column :=
        movedColumn_of_lt fun q hq hq' =>
          Nat.lt_of_lt_of_le hlt (hfirst q hq (hq'.trans (by rw [hline])))
      omega
    · -- the patch does the same to both columns
      rw [movedColumn_cons, movedColumn_cons, hline]
      split_ifs <;> omega

/-! ## The ends of lines -/

variable {line width : Nat}

/-- **The end of a line goes where its column goes.** -/
theorem width?_patched {ps : List Patch} {out : List UInt8} {patched : List Char}
    (h : applyToBytes (Utf8.encodeChars code) ps = .ok out) (hps : ∀ p ∈ ps, FitsLine code p)
    (hedits : Edits [] code (sortPatches ps) patched) (hwidth : width? code line = some width) :
    ∃ width', width? patched line = some width' ∧
      (width' : Int) = movedColumn (Utf8.encodeChars code) (sortPatches ps) ⟨line, width⟩ := by
  obtain ⟨before, behind, hcode, hplace, hbehind⟩ := width?_eq_some_iff.mp hwidth
  rcases hbehind with rfl | ⟨back, rfl⟩
  · -- the last line ends where the edit of the whole text does
    rw [List.append_nil] at hcode
    subst hcode
    have hall : upTo (sortPatches ps) (Utf8.size code) = sortPatches ps := by
      apply List.filter_eq_self.mpr
      intro p hp
      have hbounds := bounds_of_applyFrom h hp
      rw [Utf8.length_encodeChars] at hbounds
      simp only [decide_eq_true_eq]
      omega
    have hsum := sum_pushAt_eq (List.append_nil code).symm (fitsLine_of_mem_sortPatches h hps)
    have htext : code = [] ++ code ++ [] := (List.append_nil _).symm
    obtain ⟨hline, hcolumn⟩ := Edits.place hedits htext (q := Place.start) (d := 0) rfl rfl
    rw [List.nil_append, hplace] at hline hcolumn
    rw [hall, hplace] at hsum
    refine ⟨(Place.start.after patched).column, width?_eq_some_iff.mpr
      ⟨patched, [], (List.append_nil _).symm, ?_, Or.inl rfl⟩, ?_⟩
    · exact congrArg (Place.mk · _) hline
    · unfold movedColumn
      rw [hsum, hcolumn, ite_self, Int.add_zero]
  · -- any other line ends at a newline, which no patch covers
    have hget : code[before.length]? = some '\n' := by
      rw [hcode, List.getElem?_append_right (Nat.le_refl _), Nat.sub_self]
      rfl
    obtain ⟨j, hj, hcomes, hline, hcolumn⟩ := moved_of_newline h hps hedits hget
    unfold placeAt at hline hcolumn
    have htake : code.take before.length = before := by rw [hcode, List.take_left]
    rw [htake, hplace] at hline hcolumn
    have hnewline : patched[j] = '\n' := by
      have hchar := hcomes.char_eq
      rw [List.getElem?_eq_getElem hj, hget] at hchar
      exact Option.some.inj hchar
    refine ⟨_, width?_eq_some_iff.mpr ⟨patched.take j, patched.drop j,
      (List.take_append_drop j patched).symm, ?_, Or.inr ⟨patched.drop (j + 1), ?_⟩⟩, hcolumn⟩
    · exact congrArg (Place.mk · _) hline
    · rw [List.drop_eq_getElem_cons hj, hnewline]

/-- What a patch replaces ends on the line that it starts on, so it strands no end of a line. -/
theorem not_strands_width (hp : FitsLine code p ∧ p.start ≤ p.stop)
    (hwidth : width? code line = some width) :
    ¬ Strands (Utf8.encodeChars code) ⟨line, width⟩ p := by
  obtain ⟨before, removed, after, hr⟩ := hp.1.exists_replaces hp.2
  obtain ⟨front, behind, hcode, hplace, hbehind⟩ := width?_eq_some_iff.mp hwidth
  unfold Strands shiftIn
  rw [shiftOf_eq hr]
  rintro ⟨hline, hcolumn, hlt⟩
  have hsame : (Place.start.after (before ++ removed)).line = (Place.start.after front).line := by
    rw [place_behind hr, hplace]
    exact Int.ofNat.inj hline
  have hle : Utf8.size (before ++ removed) ≤ Utf8.size front := by
    by_contra hnot
    -- otherwise the end of the line would be in what is replaced, with its newline
    obtain ⟨middle, hmiddle, hrest⟩ := Utf8.prefix_of_size_le (hcode.symm.trans hr.text_eq) (by omega)
    rw [hmiddle, Place.after_append, Place.after_line] at hsame
    have hnone : '\n' ∉ middle := List.count_eq_zero.mp (by omega)
    cases middle with
    | nil =>
      rw [List.append_nil] at hmiddle
      rw [hmiddle] at hnot
      omega
    | cons c middle =>
      rcases hbehind with rfl | ⟨back, rfl⟩
      · exact absurd hrest (by simp)
      · obtain ⟨rfl, -⟩ := List.cons.inj hrest
        exact hnone List.mem_cons_self
  have hbound := Place.column_le_of_size_le (hr.text_eq.symm.trans hcode) hle hsame
  rw [place_behind hr, hplace] at hbound
  dsimp only at hbound hcolumn hlt
  omega

/-! ## The lines of a map -/

section Lines

variable {ps : List Patch} {m : Mappings} {segments : Segments}

/-- Moving the segments of a line moves their columns. -/
theorem lineColumns_moveSegments (shifts : List Shift) (segments : Segments) :
    lineColumns (moveSegments shifts 0 0 segments) =
      (lineColumns segments).map (shiftColumn shifts) := by
  unfold lineColumns
  rw [columns_moveSegments, List.reduceOption_map]

/-- A line of the moved mappings has the columns of the old one, moved. -/
theorem exists_moved_line (hlines : ∀ entry ∈ shiftsByLine source ps, 0 ≤ entry.1)
    (hsegments : m[line]? = some segments) (hnonneg : ∀ c ∈ lineColumns segments, 0 ≤ c) :
    ∃ segments', (moveLines (shiftsByLine source ps) m)[line]? = some segments' ∧
      lineColumns segments' = (lineColumns segments).map fun c =>
        movedColumn source (sortPatches ps) ⟨line, c.toNat⟩ := by
  have hget := getElem?_moveLines hlines (nodup_keys_shiftsByLine source ps) m line
  rw [hsegments] at hget
  have hmoved : ∀ c ∈ lineColumns segments,
      shiftColumn ((Dictionary.get? (shiftsByLine source ps) line).getD []) c =
        movedColumn source (sortPatches ps) ⟨line, c.toNat⟩ := by
    intro c hc
    have hcolumn := shiftColumn_shiftsByLine source ps ⟨line, c.toNat⟩
    unfold movedColumn
    dsimp only at hcolumn ⊢
    rwa [Int.toNat_of_nonneg (hnonneg c hc)] at hcolumn ⊢
  cases hshifts : Dictionary.get? (shiftsByLine source ps) (line : Int) with
  | none =>
    -- nothing is known of the line, so its columns stay
    rw [hshifts] at hget hmoved
    refine ⟨segments, hget, ?_⟩
    have hnone : shiftColumn [] = id := funext fun c => by simp [shiftColumn]
    rw [← List.map_congr_left hmoved]
    show lineColumns segments = (lineColumns segments).map (shiftColumn [])
    rw [hnone, List.map_id]
  | some shifts =>
    rw [hshifts] at hget hmoved
    refine ⟨moveSegments shifts 0 0 segments, hget, ?_⟩
    rw [lineColumns_moveSegments]
    exact List.map_congr_left hmoved

/-- **Columns of a line stay on it**: none goes beyond the end, and if none is stranded, they stay in
order. -/
theorem inOrder_map_movedColumn {cs : List Int} {width width' : Nat} (hcs : InOrder width cs)
    (hapart : qs.Pairwise (Precedes source)) (hend : ∀ p ∈ qs, ¬ Strands source ⟨line, width⟩ p)
    (hwidth : (width' : Int) = movedColumn source qs ⟨line, width⟩) :
    (∀ c ∈ cs.map fun c => movedColumn source qs ⟨line, c.toNat⟩, c ≤ width') ∧
      ((∀ c ∈ cs, ∀ p ∈ qs, ¬ Strands source ⟨line, c.toNat⟩ p) →
        InOrder width' (cs.map fun c => movedColumn source qs ⟨line, c.toNat⟩)) := by
  -- the end of the line is not stranded, so no column passes it
  have hwithin : ∀ c ∈ cs.map fun c => movedColumn source qs ⟨line, c.toNat⟩, c ≤ width' := by
    rw [List.forall_mem_map]
    intro c hc
    have hle := hcs.within c hc
    rw [hwidth]
    have hsame : (⟨line, c.toNat⟩ : Place).line = (⟨line, width⟩ : Place).line := rfl
    apply movedColumn_mono hapart hend hsame
    show c.toNat ≤ width
    omega
  refine ⟨hwithin, fun hclear => ⟨?_, ?_, hwithin⟩⟩
  · rw [List.forall_mem_map]
    intro c hc
    exact le_movedColumn hapart (hclear c hc) (Int.natCast_nonneg _) fun p _ _ => Int.natCast_nonneg _
  · rw [List.pairwise_map]
    refine hcs.sorted.imp_of_mem fun {c d} hc hd hle => ?_
    have hsame : (⟨line, c.toNat⟩ : Place).line = (⟨line, d.toNat⟩ : Place).line := rfl
    apply movedColumn_mono hapart (hclear d hd) hsame
    show c.toNat ≤ d.toNat
    omega

end Lines

/-- **Moved columns stay in order, unless they are stranded.** A map of some code is moved by accepted
patches that stay within their lines. A line whose columns are on the line, in order, keeps them from
passing the end of the line; and if no patch strands one of them, they are again on the line, in
order. -/
theorem shift_inOrder {code : String} {ps : List Patch} {m : SourceMap} {mappings : Mappings}
    {out : List UInt8} (hmappings : decodeMappings m.mappings.toList = .ok mappings)
    (happlied : applyToBytes (Utf8.encode code) ps = .ok out)
    (hfits : ∀ p ∈ ps, FitsLine code.toList p) :
    ∃ (moved : SourceMap) (mappings' : Mappings) (patched : List Char),
      m.shift (Utf8.encode code) ps = .ok moved ∧
      decodeMappings moved.mappings.toList = .ok mappings' ∧
      out = Utf8.encodeChars patched ∧
      ∀ line segments width, mappings[line]? = some segments →
        width? code.toList line = some width → InOrder width (lineColumns segments) →
        ∃ segments' width', mappings'[line]? = some segments' ∧
          width? patched line = some width' ∧
          (∀ c ∈ lineColumns segments', c ≤ width') ∧
          ((∀ c ∈ lineColumns segments, ∀ p ∈ sortPatches ps,
              ¬ Strands (Utf8.encode code) ⟨line, c.toNat⟩ p) →
            InOrder width' (lineColumns segments')) := by
  have hbytes : applyToBytes (Utf8.encodeChars code.toList) ps = .ok out := happlied
  obtain ⟨patched, hout, hedits⟩ := exists_edits hbytes hfits
  -- applied patches do not overlap, so each precedes the later ones
  have hsorted := fitsLine_of_mem_sortPatches hbytes hfits
  obtain ⟨moved, hmoved, hmappings'⟩ := exists_shift_decoded hmappings happlied
  refine ⟨moved, _, patched, hmoved, hmappings', hout, ?_⟩
  intro line segments width hsegments hwidth hcolumns
  obtain ⟨segments', hsegments', hcs⟩ :=
    exists_moved_line (lines_shiftsByLine hsorted) hsegments hcolumns.nonneg
  obtain ⟨width', hwidth', hend⟩ := width?_patched hbytes hfits hedits hwidth
  refine ⟨segments', width', hsegments', hwidth', ?_⟩
  rw [hcs]
  exact inOrder_map_movedColumn hcolumns (pairwise_precedes hbytes hsorted)
    (fun p hp => not_strands_width (hsorted p hp) hwidth) hend

/-! ## A name that is made shorter, and one that vanishes -/

/-- A comment in front of a line, and a shorter name on it. -/
def shortening : List Patch :=
  [.insertion 5 "/**/", .replacement 9 12 "x"]

/-- The patches of the example fit their lines. -/
theorem fitsLine_shortening : ∀ p ∈ shortening, FitsLine "𝒳\nlet abc=1".toList p := by
  unfold shortening
  rw [List.forall_mem_cons, List.forall_mem_singleton]
  exact
    ⟨{ start := ⟨"𝒳\n".toList, "let abc=1".toList, by decide +kernel, by decide +kernel⟩
       stop := ⟨"𝒳\n".toList, "let abc=1".toList, by decide +kernel, by decide +kernel⟩
       inserted := by decide +kernel
       removed := by decide +kernel },
     { start := ⟨"𝒳\nlet ".toList, "abc=1".toList, by decide +kernel, by decide +kernel⟩
       stop := ⟨"𝒳\nlet abc".toList, "=1".toList, by decide +kernel, by decide +kernel⟩
       inserted := by decide +kernel
       removed := by decide +kernel }⟩

theorem sortPatches_shortening : sortPatches shortening = shortening :=
  sortPatches_eq_of_perm (List.Perm.refl _) (by decide)

/-- The columns at the start of the line and behind the name are not stranded. -/
theorem shift_inOrder_shortening :
    ∃ (out : List UInt8) (moved : SourceMap) (mappings' : Mappings) (patched : List Char)
        (segments' : Segments) (width' : Nat),
      decodeMappings ";AAAA,OAAO".toList = .ok [[[]], [[0, 0, 0, 0], [7, 0, 0, 7]]] ∧
      applyToBytes (Utf8.encode "𝒳\nlet abc=1") shortening = .ok out ∧
      (∀ p ∈ shortening, FitsLine "𝒳\nlet abc=1".toList p) ∧
      SourceMap.shift ⟨";AAAA,OAAO", [], [], .null, .null⟩ (Utf8.encode "𝒳\nlet abc=1") shortening =
        .ok moved ∧
      decodeMappings moved.mappings.toList = .ok mappings' ∧
      out = Utf8.encodeChars patched ∧
      width? "𝒳\nlet abc=1".toList 1 = some 9 ∧
      InOrder 9 (lineColumns [[0, 0, 0, 0], [7, 0, 0, 7]]) ∧
      mappings'[1]? = some segments' ∧ width? patched 1 = some width' ∧
      InOrder width' (lineColumns segments') := by
  have hmappings : decodeMappings ";AAAA,OAAO".toList =
      .ok [[[]], [[0, 0, 0, 0], [7, 0, 0, 7]]] := by decide +kernel
  have hbytes : (applyToBytes (Utf8.encode "𝒳\nlet abc=1") shortening).toOption.isSome = true := by
    unfold applyToBytes applyPatches
    rw [sortPatches_shortening]
    decide +kernel
  have hwidth : width? "𝒳\nlet abc=1".toList 1 = some 9 := by decide +kernel
  have hcolumns : InOrder 9 (lineColumns [[0, 0, 0, 0], [7, 0, 0, 7]]) := by decide +kernel
  -- neither column stands behind a place that a patch takes away
  have hclear : ∀ c ∈ lineColumns [[0, 0, 0, 0], [7, 0, 0, 7]], ∀ p ∈ sortPatches shortening,
      ¬ Strands (Utf8.encode "𝒳\nlet abc=1") ⟨1, c.toNat⟩ p := by
    rw [sortPatches_shortening]
    decide +kernel
  obtain ⟨out, hout⟩ := Option.isSome_iff_exists.mp hbytes
  have happlied := Traversal.toOption_eq_some_iff.mp hout
  obtain ⟨moved, mappings', patched, hmoved, hmappings', hpatched, hlines⟩ :=
    shift_inOrder hmappings happlied fitsLine_shortening (m := ⟨";AAAA,OAAO", [], [], .null, .null⟩)
  obtain ⟨segments', width', hsegments', hwidth', -, horder⟩ := hlines 1 _ 9 rfl hwidth hcolumns
  exact ⟨out, moved, mappings', patched, segments', width', hmappings, happlied, fitsLine_shortening,
    hmoved, hmappings', hpatched, hwidth, hcolumns, hsegments', hwidth', horder hclear⟩

/-- The column of a name that vanishes is moved in front of its line. -/
theorem exists_negative_column :
    ∃ moved : SourceMap, applyToBytes (Utf8.encode "a") [.replacement 0 1 ""] = .ok [] ∧
      decodeMappings "AAAA".toList = .ok [[[0, 0, 0, 0]]] ∧
      width? "a".toList 0 = some 1 ∧ InOrder 1 (lineColumns [[0, 0, 0, 0]]) ∧
      SourceMap.shift ⟨"AAAA", [], [], .null, .null⟩ (Utf8.encode "a") [.replacement 0 1 ""] =
        .ok moved ∧
      decodeMappings moved.mappings.toList = .ok [[[-1, 0, 0, 0]]] ∧
      width? [] 0 = some 0 ∧ ¬ InOrder 0 (lineColumns [[-1, 0, 0, 0]]) := by
  -- the whole length of the patch is subtracted from its start on
  have hmoved : (SourceMap.shift ⟨"AAAA", [], [], .null, .null⟩ (Utf8.encode "a")
      [.replacement 0 1 ""]).toOption.map SourceMap.mappings = some "DAAA" := by decide +kernel
  obtain ⟨moved, hok, hmappings⟩ := Option.map_eq_some_iff.mp hmoved
  refine ⟨moved, by decide +kernel, by decide +kernel, by decide +kernel, by decide +kernel,
    Traversal.toOption_eq_some_iff.mp hok, ?_, by decide +kernel, by decide +kernel⟩
  rw [hmappings]
  decide +kernel

end Packwright.SourceMap
