import Packwright.Proofs.Patch
import Packwright.SourceMap.Decoded

/-!
# Where the places of a text go

Patches that stay within their lines move what stands behind them on the same line, and nothing
else.

* `Place.after_moved`: two places on one line that are some columns apart stay so far apart up to
  the next newline.
* `shiftOf_eq` reads off what the bytes say of a patch: the place where it starts, and how much it
  adds.
* `Edits.place` sums this up over all patches before a place.
-/

namespace Packwright.SourceMap

open Packwright.Text
open Packwright.Patch

-- sums start at the zero of the core library, whatever other instances are in scope
attribute [local instance (high)] Zero.ofOfNat0

/-! ## Places -/

namespace Place

/-- The place behind two texts is the place behind the second, from that behind the first. -/
theorem after_append (p : Place) (s t : List Char) : p.after (s ++ t) = (p.after s).after t :=
  List.foldl_append

/-- Each newline is a line more. -/
theorem after_line (p : Place) (s : List Char) : (p.after s).line = p.line + s.count '\n' := by
  induction s generalizing p with
  | nil => rfl
  | cons c rest ih =>
    show ((p.next c).after rest).line = _
    rw [ih, List.count_cons]
    unfold next
    by_cases hc : c = '\n'
    · rw [if_pos hc]
      simp only [hc, beq_self_eq_true, if_true]
      omega
    · rw [if_neg hc]
      simp [hc]

/-- Without a newline a text only moves the column. -/
theorem after_of_not_mem {s : List Char} (h : '\n' ∉ s) (p : Place) :
    p.after s = ⟨p.line, p.column + Utf16.units s⟩ := by
  induction s generalizing p with
  | nil => rfl
  | cons c rest ih =>
    have hc : c ≠ '\n' := fun heq => h (heq ▸ List.mem_cons_self)
    have hrest : '\n' ∉ rest := fun hmem => h (List.mem_cons_of_mem _ hmem)
    show (p.next c).after rest = _
    rw [ih hrest]
    unfold next
    rw [if_neg hc]
    simp only [Utf16.units, List.map_cons, List.sum_cons]
    congr 1
    omega

/-- **Places on one line stay as far apart as they are**, up to the next newline. -/
theorem after_moved {p q : Place} {d : Int} (hline : q.line = p.line)
    (hcolumn : (q.column : Int) = p.column + d) (s : List Char) :
    (q.after s).line = (p.after s).line ∧
      ((q.after s).column : Int) = (p.after s).column + if '\n' ∈ s then 0 else d := by
  induction s generalizing p q d with
  | nil =>
    refine ⟨hline, ?_⟩
    rw [if_neg (by simp)]
    exact hcolumn
  | cons c rest ih =>
    show ((q.next c).after rest).line = ((p.next c).after rest).line ∧
      (((q.next c).after rest).column : Int) = ((p.next c).after rest).column + _
    -- a newline starts both lines anew, and the distance is lost
    by_cases hc : c = '\n'
    · have hsame : q.next c = p.next c := by
        unfold next
        rw [if_pos hc, if_pos hc, hline]
      rw [hsame, if_pos (by rw [hc]; exact List.mem_cons_self)]
      exact ⟨rfl, by omega⟩
    · have hnext : (q.next c).line = (p.next c).line ∧
          ((q.next c).column : Int) = (p.next c).column + d := by
        unfold next
        rw [if_neg hc, if_neg hc]
        refine ⟨hline, ?_⟩
        push_cast
        omega
      obtain ⟨hl, hr⟩ := ih hnext.1 hnext.2
      have hmem : ('\n' ∈ c :: rest) ↔ '\n' ∈ rest := by
        simp [Ne.symm hc]
      refine ⟨hl, ?_⟩
      rw [hr]
      simp only [hmem]

end Place

/-! ## What the bytes say of a patch -/

/-- The offsets of the lines of a text, from an offset on. -/
theorem startsFrom_append (s t : List UInt8) (i : Nat) :
    lineStarts.startsFrom i (s ++ t) =
      lineStarts.startsFrom i s ++ lineStarts.startsFrom (i + s.length) t := by
  induction s generalizing i with
  | nil => rfl
  | cons b rest ih =>
    rw [List.cons_append, lineStarts.startsFrom, lineStarts.startsFrom, ih, List.length_cons,
      show i + 1 + rest.length = i + (rest.length + 1) by omega]
    split <;> rfl

/-- Without a newline no line starts. -/
theorem startsFrom_of_not_mem {s : List UInt8} (h : (0x0a : UInt8) ∉ s) (i : Nat) :
    lineStarts.startsFrom i s = [] := by
  induction s generalizing i with
  | nil => rfl
  | cons b rest ih =>
    have hb : b ≠ 0x0a := fun heq => h (heq ▸ List.mem_cons_self)
    rw [lineStarts.startsFrom, if_neg hb]
    exact ih (fun hmem => h (List.mem_cons_of_mem _ hmem)) _

/-- Every line starts in the text or behind it. -/
theorem startsFrom_bounds {s : List UInt8} {i j : Nat} (h : j ∈ lineStarts.startsFrom i s) :
    i ≤ j ∧ j < i + s.length := by
  induction s generalizing i with
  | nil => exact absurd h (by simp [lineStarts.startsFrom])
  | cons b rest ih =>
    rw [lineStarts.startsFrom] at h
    rw [List.length_cons]
    -- a line starts behind this byte, or further on
    split at h
    · rcases List.mem_cons.mp h with rfl | hrest
      · omega
      · have := ih hrest
        omega
    · have := ih h
      omega

/-- As many lines start as there are newlines, because no longer character has that byte. -/
theorem startsFrom_length (s : List Char) (i : Nat) :
    (lineStarts.startsFrom i (Utf8.encodeChars s)).length = s.count '\n' := by
  induction s generalizing i with
  | nil => rfl
  | cons c rest ih =>
    rw [Utf8.encodeChars_cons, startsFrom_append, List.length_append, ih, List.count_cons]
    by_cases hc : c = '\n'
    · subst hc
      simp only [beq_self_eq_true, if_true]
      rw [Nat.add_comm]
      rfl
    · have hnot : (0x0a : UInt8) ∉ String.utf8EncodeChar c := fun hmem =>
        hc (Utf8.newline_mem_utf8EncodeChar hmem)
      rw [startsFrom_of_not_mem hnot]
      simp [hc]

/-- The text of a line before a place, and what stands before that. -/
theorem exists_line (s : List Char) :
    ∃ lines line, s = lines ++ line ∧ '\n' ∉ line ∧
      (lines = [] ∨ ∃ rest, lines = rest ++ ['\n']) := by
  induction s with
  | nil => exact ⟨[], [], rfl, by simp, Or.inl rfl⟩
  | cons c rest ih =>
    obtain ⟨lines, line, rfl, hline, hends⟩ := ih
    rcases hends with rfl | ⟨more, rfl⟩
    · -- if no line has ended yet, a newline ends the first, and anything else is in the last
      by_cases hc : c = '\n'
      · exact ⟨[c], line, rfl, hline, Or.inr ⟨[], by rw [hc]; rfl⟩⟩
      · refine ⟨[], c :: line, rfl, ?_, Or.inl rfl⟩
        simp only [List.mem_cons, not_or]
        exact ⟨Ne.symm hc, hline⟩
    · exact ⟨c :: (more ++ ['\n']), line, rfl, hline, Or.inr ⟨c :: more, rfl⟩⟩

/-- The place behind lines and a text that follows them. -/
theorem Place.after_lines {lines line : List Char} (hline : '\n' ∉ line)
    (hlines : lines = [] ∨ ∃ rest, lines = rest ++ ['\n']) :
    Place.start.after (lines ++ line) = ⟨lines.count '\n', Utf16.units line⟩ := by
  have hcolumn : (Place.start.after lines).column = 0 := by
    rcases hlines with rfl | ⟨rest, rfl⟩
    · rfl
    · rw [Place.after_append]
      rfl
  rw [Place.after_append, Place.after_of_not_mem hline, hcolumn, Place.after_line]
  simp [Place.start]

/-- The starts of lines around a place: `lines` is everything before its line. -/
theorem lineStarts_eq {lines line : List Char} (after : List Char) (hline : '\n' ∉ line)
    (hlines : lines = [] ∨ ∃ rest, lines = rest ++ ['\n']) :
    ∃ earlier later, lineStarts (Utf8.encodeChars (lines ++ line ++ after)) =
        earlier ++ Utf8.size lines :: later ∧
      earlier.length = lines.count '\n' ∧
      (∀ start ∈ earlier, start ≤ Utf8.size (lines ++ line)) ∧
      ∀ start ∈ later, Utf8.size (lines ++ line) < start := by
  have hnone : lineStarts.startsFrom (1 + (Utf8.encodeChars lines).length) (Utf8.encodeChars line) =
      [] := startsFrom_of_not_mem
    (fun hmem => hline ((Utf8.newline_mem_encodeChars_iff line).mp hmem)) _
  have hall : lineStarts (Utf8.encodeChars (lines ++ line ++ after)) =
      0 :: (lineStarts.startsFrom 1 (Utf8.encodeChars lines) ++
        lineStarts.startsFrom (1 + Utf8.size (lines ++ line)) (Utf8.encodeChars after)) := by
    unfold lineStarts
    rw [Utf8.encodeChars_append, startsFrom_append, Utf8.length_encodeChars, Utf8.encodeChars_append,
      startsFrom_append, hnone, List.append_nil]
  have hlater : ∀ start ∈ lineStarts.startsFrom (1 + Utf8.size (lines ++ line))
      (Utf8.encodeChars after), Utf8.size (lines ++ line) < start := fun start hmem => by
    have := startsFrom_bounds hmem
    omega
  rw [hall]
  rcases hlines with rfl | ⟨rest, rfl⟩
  · exact ⟨[], _, rfl, rfl, by simp, hlater⟩
  · -- the last newline before the place starts its line
    have hlast : lineStarts.startsFrom 1 (Utf8.encodeChars (rest ++ ['\n'])) =
        lineStarts.startsFrom 1 (Utf8.encodeChars rest) ++ [Utf8.size (rest ++ ['\n'])] := by
      have hnewline : Utf8.encodeChars ['\n'] = [0x0a] := by decide
      have hsize : 1 + Utf8.size rest = Utf8.size (rest ++ ['\n']) := by
        rw [Utf8.size_append, Nat.add_comm]
        rfl
      rw [Utf8.encodeChars_append, startsFrom_append, hnewline, Utf8.length_encodeChars, hsize]
      rfl
    rw [hlast, List.append_assoc]
    refine ⟨0 :: lineStarts.startsFrom 1 (Utf8.encodeChars rest), _, rfl, ?_, ?_, hlater⟩
    · rw [List.length_cons, startsFrom_length, List.count_append]
      rfl
    · intro start hmem
      rcases List.mem_cons.mp hmem with rfl | hmem
      · exact Nat.zero_le _
      · have hbounds := startsFrom_bounds hmem
        rw [Utf8.length_encodeChars] at hbounds
        simp only [Utf8.size_append]
        have hone : Utf8.size ['\n'] = 1 := rfl
        omega

/-- The place behind what a patch replaces. -/
theorem place_behind {text before removed after : List Char} {p : Patch}
    (hr : Replaces text p before removed after) :
    Place.start.after (before ++ removed) = ⟨(Place.start.after before).line,
      (Place.start.after before).column + Utf16.units removed⟩ := by
  rw [Place.after_append, Place.after_of_not_mem hr.removed]

/-- **What the bytes say of a patch**: the place where it starts, and how much it adds to its
line. -/
theorem shiftOf_eq {text before removed after : List Char} {p : Patch}
    (h : Replaces text p before removed after) :
    shiftOf (Utf8.encodeChars text) (lineStarts (Utf8.encodeChars text)) p =
      (((Place.start.after before).line : Int), ⟨(Place.start.after before).column,
        (Utf16.units p.text.toList : Int) - Utf16.units removed⟩) := by
  obtain ⟨lines, line, rfl, hline, hends⟩ := exists_line before
  have htext : text = lines ++ line ++ (removed ++ after) := by
    rw [h.text_eq]
    simp
  -- lines start in front of the patch's line, with it, or behind the patch
  obtain ⟨earlier, later, hstarts, hlength, hearlier, hlater⟩ :=
    lineStarts_eq (removed ++ after) hline hends
  rw [← htext] at hstarts
  have hplace := Place.after_lines hline hends
  have hkeep : ∀ start ∈ earlier, decide ((start : Int) ≤ p.start) = true := fun start hmem => by
    have := hearlier start hmem
    rw [h.start_eq]
    simp only [decide_eq_true_eq]
    omega
  have hdrop : ∀ start ∈ later, ¬decide ((start : Int) ≤ p.start) = true := fun start hmem => by
    have := hlater start hmem
    rw [h.start_eq]
    simp only [decide_eq_true_eq]
    omega
  have hhere : (fun start : Nat => decide ((start : Int) ≤ p.start)) (Utf8.size lines) = true := by
    rw [h.start_eq, Utf8.size_append]
    simp only [decide_eq_true_eq]
    omega
  have hfilter : (Utf8.size lines :: later).filter (fun start : Nat => decide ((start : Int) ≤ p.start)) =
      [Utf8.size lines] := by
    rw [List.filter_cons, if_pos hhere, List.filter_eq_nil_iff.mpr hdrop]
  have hlineOf : lineOf (lineStarts (Utf8.encodeChars text)) p.start = lines.count '\n' := by
    unfold lineOf
    rw [hstarts, List.filter_append, List.filter_eq_self.mpr hkeep, hfilter, List.length_append,
      hlength]
    simp
  have hstart : (atPosition? (lineStarts (Utf8.encodeChars text)) (lines.count '\n')).getD 0 =
      Utf8.size lines := by
    unfold atPosition?
    rw [if_pos (by omega), hstarts, Int.toNat_natCast, ← hlength, List.getElem?_append_right
      (Nat.le_refl _), Nat.sub_self]
    rfl
  have hcolumn : between (Utf8.size lines : Int) p.start (Utf8.encodeChars text) =
      Utf8.encodeChars line := by
    rw [h.start_eq, htext, between_encodeChars]
  have hremoved : between p.start p.stop (Utf8.encodeChars text) = Utf8.encodeChars removed := by
    rw [h.start_eq, h.stop_eq, h.text_eq, between_encodeChars]
  unfold shiftOf
  simp only [hlineOf, hstart, hcolumn, hremoved, Utf16.unitsOfBytes, Utf8.decodeLenient_encodeChars,
    hplace]

/-! ## What all patches say together -/

/-- How much a patch moves what stands behind it on a line. -/
def pushOn (source : List UInt8) (line : Nat) (p : Patch) : Int :=
  if (shiftOf source (lineStarts source) p).1 = line then
    (shiftOf source (lineStarts source) p).2.delta
  else 0

/-- How much a patch moves what stands at a place. -/
def pushAt (source : List UInt8) (place : Place) (p : Patch) : Int :=
  if (shiftOf source (lineStarts source) p).2.column ≤ place.column then
    pushOn source place.line p
  else 0

/-- **The place behind an edit** is moved by the patches of its line. `q` is where the edit comes to
stand, in place of `done`. -/
theorem Edits.place {done rest out : List Char} {ps : List Patch} (h : Edits done rest ps out)
    {text suffix : List Char} (htext : text = done ++ rest ++ suffix) {q : Place} {d : Int}
    (hline : q.line = (Place.start.after done).line)
    (hcolumn : (q.column : Int) = (Place.start.after done).column + d) :
    (q.after out).line = (Place.start.after (done ++ rest)).line ∧
      ((q.after out).column : Int) =
        (Place.start.after (done ++ rest)).column + (if '\n' ∈ rest then 0 else d) +
          (ps.map (pushOn (Utf8.encodeChars text) (Place.start.after (done ++ rest)).line)).sum := by
  induction h generalizing q d with
  | keep done rest =>
    rw [Place.after_append]
    simpa using Place.after_moved hline hcolumn rest
  | @edit done kept removed rest out p more hstart hstop hinserted hremoved hmore ih =>
    have hr : Replaces text p (done ++ kept) removed (rest ++ suffix) :=
      ⟨by rw [htext]; simp, hstart, hstop, hinserted, hremoved⟩
    -- behind what is kept, and behind what is replaced
    obtain ⟨hline1, hcolumn1⟩ := Place.after_moved hline hcolumn kept
    rw [← Place.after_append] at hline1 hcolumn1
    have hbehind := place_behind hr
    have hbehind' : (q.after kept).after p.text.toList =
        ⟨(q.after kept).line, (q.after kept).column + Utf16.units p.text.toList⟩ :=
      Place.after_of_not_mem hinserted _
    obtain ⟨hl, hc⟩ := ih (q := (q.after kept).after p.text.toList)
      (d := (if '\n' ∈ kept then 0 else d) +
        ((Utf16.units p.text.toList : Int) - Utf16.units removed)) (by rw [htext]; simp)
      (by rw [hbehind, hbehind']; exact hline1) (by rw [hbehind, hbehind']; push_cast; omega)
    have hq : q.after (kept ++ p.text.toList ++ out) =
        ((q.after kept).after p.text.toList).after out := by
      rw [Place.after_append, Place.after_append]
    have hdone : done ++ (kept ++ removed ++ rest) = done ++ kept ++ removed ++ rest := by simp
    rw [hq, hdone]
    refine ⟨hl, ?_⟩
    rw [hc, List.map_cons, List.sum_cons]
    have hpush : pushOn (Utf8.encodeChars text) (Place.start.after (done ++ kept ++ removed ++ rest)).line
        p = if '\n' ∈ rest then 0 else (Utf16.units p.text.toList : Int) - Utf16.units removed := by
      have hcount : (Place.start.after (done ++ kept ++ removed ++ rest)).line =
          (Place.start.after (done ++ kept)).line + rest.count '\n' := by
        rw [Place.after_append, hbehind, Place.after_line]
      unfold pushOn
      rw [shiftOf_eq hr, hcount]
      by_cases hmem : '\n' ∈ rest
      · have hpos := List.count_pos_iff.mpr hmem
        rw [if_neg (by push_cast; omega), if_pos hmem]
      · rw [List.count_eq_zero.mpr hmem, if_pos (by simp), if_neg hmem]
    rw [hpush]
    have hmem : '\n' ∈ kept ++ removed ++ rest ↔ '\n' ∈ kept ∨ '\n' ∈ rest := by
      simp [hremoved]
    by_cases hrest : '\n' ∈ rest
    · simp [hrest]
    · by_cases hkept : '\n' ∈ kept
      · rw [if_neg hrest, if_neg hrest, if_pos hkept, if_pos (hmem.mpr (Or.inl hkept))]
        omega
      · rw [if_neg hrest, if_neg hrest, if_neg hkept,
          if_neg fun hin => (hmem.mp hin).elim hkept hrest]
        omega

/-- Places of one line are ordered as their offsets are. -/
theorem Place.column_le_of_size_le {before after before' after' : List Char}
    (htext : before ++ after = before' ++ after') (hle : Utf8.size before ≤ Utf8.size before')
    (hline : (Place.start.after before).line = (Place.start.after before').line) :
    (Place.start.after before).column ≤ (Place.start.after before').column := by
  obtain ⟨middle, rfl, -⟩ := Utf8.prefix_of_size_le htext hle
  have hcount := Place.after_line (Place.start.after before) middle
  rw [← Place.after_append] at hcount
  have hnot : '\n' ∉ middle := List.count_eq_zero.mp (by omega)
  rw [Place.after_append, Place.after_of_not_mem hnot]
  exact Nat.le_add_right _ _

/-- A patch counts at a place exactly if it starts there or before it. -/
theorem pushAt_eq {text before after : List Char} {p : Patch} (htext : text = before ++ after)
    (hp : FitsLine text p) (hle : p.start ≤ p.stop) :
    pushAt (Utf8.encodeChars text) (Place.start.after before) p =
      if p.start ≤ Utf8.size before then
        pushOn (Utf8.encodeChars text) (Place.start.after before).line p
      else 0 := by
  obtain ⟨front, removed, back, hr⟩ := hp.exists_replaces hle
  have hfront : text = front ++ (removed ++ back) := by
    rw [hr.text_eq]
    simp
  have hsame := htext.symm.trans hfront
  unfold pushAt pushOn
  rw [shiftOf_eq hr, hr.start_eq]
  by_cases hstart : Utf8.size front ≤ Utf8.size before
  · -- the patch starts before the place, so on the same line its column is not beyond it
    obtain ⟨middle, rfl, _⟩ := Utf8.prefix_of_size_le hsame.symm hstart
    rw [if_pos (show ((Utf8.size front : Nat) : Int) ≤ Utf8.size (front ++ middle) by omega)]
    by_cases hline : (Place.start.after front).line = (Place.start.after (front ++ middle)).line
    · have hcolumn := Place.column_le_of_size_le hsame.symm hstart hline
      rw [if_pos hcolumn]
    · rw [if_neg (show ¬((Place.start.after front).line : Int) =
        (Place.start.after (front ++ middle)).line by omega), ite_self]
  · -- the patch starts beyond the place, so on the same line its column is beyond it
    obtain ⟨middle, rfl, _⟩ := Utf8.prefix_of_size_le hsame (Nat.le_of_not_le hstart)
    rw [if_neg (show ¬((Utf8.size (before ++ middle) : Nat) : Int) ≤ Utf8.size before by omega)]
    have hcount : (Place.start.after (before ++ middle)).line =
        (Place.start.after before).line + middle.count '\n' := by
      rw [Place.after_append, Place.after_line]
    by_cases hline : (Place.start.after (before ++ middle)).line = (Place.start.after before).line
    · have hcolumn : ¬(Place.start.after (before ++ middle)).column ≤
          (Place.start.after before).column := by
        have hnot : '\n' ∉ middle := List.count_eq_zero.mp (by omega)
        rw [Place.after_append, Place.after_of_not_mem hnot]
        cases middle with
        | nil => simp at hstart
        | cons c rest =>
          have hpos := Utf16.charUnits_pos c
          simp only [Utf16.units, List.map_cons, List.sum_cons]
          omega
      rw [if_neg hcolumn]
    · rw [if_neg (show ¬((Place.start.after (before ++ middle)).line : Int) =
        (Place.start.after before).line by omega), ite_self]

end Packwright.SourceMap
