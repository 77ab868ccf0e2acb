import Packwright.Proofs.Dictionary
import Packwright.Proofs.Text.Lines
import Packwright.Proofs.Traversal
import Packwright.Proofs.Vlq
import Packwright.SourceMap.Decoded

/-!
# Moving segments, in numbers

What the moving of segments does to their fields. The mappings are texts in three layers, cut at
semicolons, at commas and into digits; each layer is read back as it was written.

* `moveSegments` moves the segments of a line as numbers, `moveLines` those of all lines.
* `shiftMappings_spec` says that the texts follow: the moved mappings are read as the moved numbers.
* `columns_moveSegments`: in absolute columns, moving is `shiftColumn` at every segment.
-/

namespace Packwright.SourceMap

open Packwright.Text

/-! ## One line -/

/-- The segments of a line moved; the two columns are the old and the new one of the last segment
that has any. -/
def moveSegments (shifts : List Shift) (old new : Int) : Segments → Segments
  | [] => []
  | [] :: rest => [] :: moveSegments shifts old new rest
  | (delta :: more) :: rest =>
    ((shiftColumn shifts (old + delta) - new) :: more) ::
      moveSegments shifts (old + delta) (shiftColumn shifts (old + delta)) rest

/-- A text that is read as the fields of a segment. -/
def Reads (text : List Char) (fields : Segment) : Prop :=
  Vlq.decodeChars text = .ok fields

/-- A text that holds a separator is no segment. -/
theorem digitValue?_separators : Vlq.digitValue? ',' = none ∧ Vlq.digitValue? ';' = none := by
  decide

/-- **The texts of the segments of a line follow the numbers**, and no separator gets into them. -/
theorem shiftSegments_spec (shifts : List Shift) {texts : List (List Char)} {segments : Segments}
    (h : List.Forall₂ Reads texts segments) (old new : Int) :
    ∃ moved, shiftSegments shifts old new texts = .ok moved ∧
      List.Forall₂ Reads moved (moveSegments shifts old new segments) ∧
      ∀ text ∈ moved, text ∈ texts ∨ ∀ c ∈ text, (Vlq.digitValue? c).isSome = true := by
  induction h generalizing old new with
  | nil => exact ⟨[], rfl, .nil, by simp⟩
  | @cons text fields texts segments hread _ ih =>
    have hdecode : Vlq.decodeChars text = .ok fields := hread
    -- a segment without fields is kept as it is written; others are written anew
    cases fields with
    | nil =>
      obtain ⟨moved, hshift, hmoved, hmem⟩ := ih old new
      refine ⟨text :: moved, ?_, .cons hread hmoved, ?_⟩
      · rw [shiftSegments, hdecode]
        simp only [Bind.bind, Except.bind, hshift, Pure.pure, Except.pure]
      · intro q hq
        rcases List.mem_cons.mp hq with rfl | hq
        · exact Or.inl List.mem_cons_self
        · exact (hmem q hq).imp_left (List.mem_cons_of_mem _)
    | cons delta more =>
      obtain ⟨moved, hshift, hmoved, hmem⟩ :=
        ih (old + delta) (shiftColumn shifts (old + delta))
      refine ⟨Vlq.encodeChars ((shiftColumn shifts (old + delta) - new) :: more) :: moved, ?_,
        .cons (Vlq.decodeChars_encodeChars _) hmoved, ?_⟩
      · rw [shiftSegments, hdecode]
        simp only [Bind.bind, Except.bind, hshift, Pure.pure, Except.pure]
      · intro q hq
        rcases List.mem_cons.mp hq with rfl | hq
        · exact Or.inr fun c hc => Vlq.digit_of_mem_encodeChars hc
        · exact (hmem q hq).imp_left (List.mem_cons_of_mem _)

/-- A text that is read as the segments of a line. -/
def ReadsLine (text : List Char) (segments : Segments) : Prop :=
  ';' ∉ text ∧ List.Forall₂ Reads (splitOn ',' text) segments

/-- **The text of a line follows the numbers.** -/
theorem shiftLine_spec {text : List Char} {segments : Segments} (h : ReadsLine text segments)
    (shifts : List Shift) :
    ∃ moved, shiftLine shifts text = .ok moved ∧
      ReadsLine moved (moveSegments shifts 0 0 segments) := by
  obtain ⟨hsep, hread⟩ := h
  unfold shiftLine
  by_cases hempty : text.isEmpty = true
  · -- an empty line has one segment, and that has no fields
    rw [if_pos hempty]
    have htext : text = [] := List.isEmpty_iff.mp hempty
    subst htext
    refine ⟨[], rfl, by simp, ?_⟩
    cases hread with
    | cons hfirst hrest =>
      have hfields := Except.ok.inj hfirst
      cases hrest
      rw [← hfields]
      exact .cons rfl .nil
  · rw [if_neg hempty]
    obtain ⟨moved, hshift, hmoved, hmem⟩ := shiftSegments_spec shifts hread 0 0
    have hne : moved ≠ [] := by
      rintro rfl
      have hlen := hmoved.length_eq
      have hlen' := hread.length_eq
      cases segments with
      | nil => exact splitOn_ne_nil ',' text (List.length_eq_zero_iff.mp hlen')
      | cons first rest => cases first <;> simp [moveSegments] at hlen
    have hpiece : ∀ piece ∈ moved, ∀ c ∈ piece, c ≠ ',' ∧ c ≠ ';' := by
      intro piece hp c hc
      rcases hmem piece hp with hold | hdigits
      · have hin := mem_of_mem_splitOn hold hc
        exact ⟨hin.2, fun heq => hsep (heq ▸ hin.1)⟩
      · have hdigit := hdigits c hc
        constructor
        · rintro rfl
          rw [digitValue?_separators.1] at hdigit
          exact absurd hdigit (by decide)
        · rintro rfl
          rw [digitValue?_separators.2] at hdigit
          exact absurd hdigit (by decide)
    refine ⟨joinWith ',' moved, ?_, ?_, ?_⟩
    · rw [hshift]
      rfl
    · intro hmem'
      rcases mem_of_mem_joinWith hmem' with heq | ⟨piece, hp, hc⟩
      · exact absurd heq (by decide)
      · exact (hpiece piece hp ';' hc).2 rfl
    · rw [splitOn_joinWith hne fun piece hp hc => (hpiece piece hp ',' hc).1 rfl]
      exact hmoved

/-- In absolute columns every segment moves by itself. -/
theorem columns_moveSegments (shifts : List Shift) (old new : Int) (segments : Segments) :
    columns new (moveSegments shifts old new segments) =
      (columns old segments).map (Option.map (shiftColumn shifts)) := by
  induction segments generalizing old new with
  | nil => rfl
  | cons fields rest ih =>
    cases fields with
    | nil =>
      rw [moveSegments, columns, columns, ih]
      rfl
    | cons delta more =>
      -- the written delta leads from the new column before to the new column here
      have hsum : new + (shiftColumn shifts (old + delta) - new) = shiftColumn shifts (old + delta) := by
        omega
      rw [moveSegments, columns, columns, hsum, ih]
      rfl

/-! ## All lines -/

/-- All lines moved, each by the shifts that it has. -/
def moveLines (shifts : Dictionary Int (List Shift)) (m : Mappings) : Mappings :=
  shifts.foldl (fun m (line, shifts) => m.modify line.toNat (moveSegments shifts 0 0)) m

/-- Moving the line at a position follows the numbers; a line beyond the mappings is passed over. -/
theorem shiftLineAt_spec {texts : List (List Char)} {m : Mappings}
    (h : List.Forall₂ ReadsLine texts m) {line : Int} (hline : 0 ≤ line) (shifts : List Shift) :
    ∃ moved, shiftLineAt texts (line, shifts) = .ok moved ∧
      List.Forall₂ ReadsLine moved (m.modify line.toNat (moveSegments shifts 0 0)) := by
  unfold shiftLineAt atPosition?
  simp only [if_pos hline]
  generalize line.toNat = l
  cases htext : texts[l]? with
  | none =>
    refine ⟨texts, rfl, ?_⟩
    -- a line that the map does not reach is left out on both sides
    have hlen := List.getElem?_eq_none_iff.mp htext
    rw [h.length_eq] at hlen
    rw [List.modify_eq_self (by omega)]
    exact h
  | some text =>
    obtain ⟨hlt, hget⟩ := List.getElem?_eq_some_iff.mp htext
    have hlt' : l < m.length := h.length_eq ▸ hlt
    have hread : ReadsLine text m[l] := hget ▸ h.get hlt hlt'
    obtain ⟨moved, hshift, hmoved⟩ := shiftLine_spec hread shifts
    refine ⟨texts.set l moved, ?_, ?_⟩
    · simp only [hshift, Bind.bind, Except.bind, Pure.pure, Except.pure]
    · refine List.forall₂_iff_get.mpr ⟨by simpa using h.length_eq, fun i hi hi' => ?_⟩
      have hold := h.get (by simpa using hi) (by simpa using hi')
      by_cases heq : l = i
      · subst heq
        simpa [List.getElem_modify] using hmoved
      · simpa [heq, List.getElem_modify] using hold

/-- **The texts of the mappings follow the numbers.** -/
theorem shiftMappings_spec {mappings : List Char} {m : Mappings}
    (h : decodeMappings mappings = .ok m) {shifts : Dictionary Int (List Shift)}
    (hlines : ∀ p ∈ shifts, 0 ≤ p.1) :
    ∃ moved, shiftMappings shifts mappings = .ok moved ∧
      decodeMappings moved = .ok (moveLines shifts m) := by
  have hread : List.Forall₂ ReadsLine (splitOn ';' mappings) m := by
    have hall := Traversal.mapM_eq_ok_iff.mp h
    refine List.forall₂_iff_get.mpr ⟨hall.length_eq, fun i hi hi' => ?_⟩
    refine ⟨fun hmem => ?_, Traversal.mapM_eq_ok_iff.mp (hall.get hi hi')⟩
    exact (mem_of_mem_splitOn (List.getElem_mem hi) hmem).2 rfl
  -- the texts stay as many as they are, so there is always one to be joined
  have hfold : ∀ texts m, texts ≠ [] → List.Forall₂ ReadsLine texts m →
      ∃ moved, shifts.foldlM shiftLineAt texts = .ok moved ∧ moved ≠ [] ∧
        List.Forall₂ ReadsLine moved (moveLines shifts m) := by
    clear h hread
    induction shifts with
    | nil => exact fun texts m hne hread => ⟨texts, rfl, hne, hread⟩
    | cons p rest ih =>
      intro texts m hne hread
      obtain ⟨line, here⟩ := p
      obtain ⟨next, hshift, hnext⟩ := shiftLineAt_spec hread (hlines _ List.mem_cons_self) here
      have hne' : next ≠ [] := by
        rintro rfl
        have hlen := hnext.length_eq
        rw [List.length_modify, ← hread.length_eq] at hlen
        exact hne (List.length_eq_zero_iff.mp hlen.symm)
      obtain ⟨moved, hmoved, hne'', hfinal⟩ :=
        ih (fun q hq => hlines q (List.mem_cons_of_mem _ hq)) next _ hne' hnext
      refine ⟨moved, ?_, hne'', hfinal⟩
      rw [List.foldlM_cons, hshift]
      exact hmoved
  obtain ⟨moved, hmoved, hne, hfinal⟩ := hfold _ m (splitOn_ne_nil ';' mappings) hread
  refine ⟨joinWith ';' moved, ?_, ?_⟩
  · unfold shiftMappings
    rw [hmoved]
    rfl
  · unfold decodeMappings
    have hsep : ∀ text ∈ moved, ';' ∉ text := by
      intro text hmem
      obtain ⟨i, hi, rfl⟩ := List.getElem_of_mem hmem
      exact (hfinal.get hi (hfinal.length_eq ▸ hi)).1
    rw [splitOn_joinWith hne hsep, Traversal.mapM_eq_ok_iff]
    exact hfinal.imp fun text segments hline => Traversal.mapM_eq_ok_iff.mpr hline.2

/-! ## What stays and what moves -/

/-- Segments that differ in their columns at most. -/
def SameButColumn (a b : Segment) : Prop :=
  a.length = b.length ∧ a.tail = b.tail

/-- Moving segments touches their columns only. -/
theorem sameButColumn_moveSegments (shifts : List Shift) (old new : Int) (segments : Segments) :
    List.Forall₂ SameButColumn segments (moveSegments shifts old new segments) := by
  induction segments generalizing old new with
  | nil => exact .nil
  | cons fields rest ih =>
    cases fields with
    | nil => exact .cons ⟨rfl, rfl⟩ (ih old new)
    | cons delta more => exact .cons ⟨rfl, rfl⟩ (ih _ _)

/-- The line of the moved mappings at an index. -/
theorem getElem?_moveLines {shifts : Dictionary Int (List Shift)}
    (hlines : ∀ p ∈ shifts, 0 ≤ p.1) (hnodup : (Dictionary.keys shifts).Nodup) (m : Mappings)
    (l : Nat) :
    (moveLines shifts m)[l]? =
      match Dictionary.get? shifts l with
      | some here => m[l]?.map (moveSegments here 0 0)
      | none => m[l]? := by
  induction shifts generalizing m with
  | nil => rfl
  | cons p rest ih =>
    obtain ⟨line, here⟩ := p
    have hline : 0 ≤ line := hlines _ List.mem_cons_self
    have hnd : line ∉ Dictionary.keys rest ∧ (Dictionary.keys rest).Nodup := by
      simpa [Dictionary.keys] using hnodup
    have hrest := ih (fun q hq => hlines q (List.mem_cons_of_mem _ hq)) hnd.2
      (m.modify line.toNat (moveSegments here 0 0))
    show (moveLines rest _)[l]? = _
    rw [hrest, List.getElem?_modify]
    -- keys are distinct, so no later entry moves this line again
    by_cases heq : line = (l : Int)
    · have hl : line.toNat = l := by omega
      have hnone : Dictionary.get? rest (l : Int) = none := by
        cases hget : Dictionary.get? rest (l : Int) with
        | none => rfl
        | some other =>
          refine absurd ?_ hnd.1
          rw [heq]
          exact List.mem_map_of_mem (f := Prod.fst) (Dictionary.mem_of_get?_eq_some hget)
      simp [hnone, heq, Dictionary.get?]
    · have hl : line.toNat ≠ l := by omega
      simp [heq, hl, Dictionary.get?]

/-- **Lines, segments and all fields but the columns stay.** -/
theorem same_moveLines {shifts : Dictionary Int (List Shift)}
    (hlines : ∀ p ∈ shifts, 0 ≤ p.1) (hnodup : (Dictionary.keys shifts).Nodup) (m : Mappings) :
    List.Forall₂ (List.Forall₂ SameButColumn) m (moveLines shifts m) := by
  have hself : ∀ segments : Segments, List.Forall₂ SameButColumn segments segments := fun segments =>
    List.forall₂_same.mpr fun _ _ => ⟨rfl, rfl⟩
  -- each line is modified where it is, so none is added
  have hlen : (moveLines shifts m).length = m.length := by
    clear hlines hnodup
    induction shifts generalizing m with
    | nil => rfl
    | cons p rest ih => exact (ih _).trans (List.length_modify _ _ _)
  refine List.forall₂_iff_get.mpr ⟨hlen.symm, fun i hi hi' => ?_⟩
  have hget := getElem?_moveLines hlines hnodup m i
  rw [List.getElem?_eq_getElem hi', List.getElem?_eq_getElem hi] at hget
  split at hget
  · have heq := Option.some.inj hget
    show List.Forall₂ SameButColumn m[i] (moveLines shifts m)[i]
    rw [heq]
    exact sameButColumn_moveSegments _ 0 0 _
  · have heq := Option.some.inj hget
    show List.Forall₂ SameButColumn m[i] (moveLines shifts m)[i]
    rw [heq]
    exact hself _

/-- **A segment moves by the shifts of its line.** -/
theorem columnAt?_moveLines {shifts : Dictionary Int (List Shift)}
    (hlines : ∀ p ∈ shifts, 0 ≤ p.1) (hnodup : (Dictionary.keys shifts).Nodup) {m : Mappings}
    {l s : Nat} {column : Int} (h : columnAt? m l s = some column) :
    columnAt? (moveLines shifts m) l s =
      some (shiftColumn ((Dictionary.get? shifts l).getD []) column) := by
  unfold columnAt? at h ⊢
  -- a line without shifts keeps its columns
  have hnone : ∀ column, shiftColumn [] column = column := fun column => by simp [shiftColumn]
  rw [getElem?_moveLines hlines hnodup]
  cases hm : m[l]? with
  | none => rw [hm] at h; exact absurd h (by simp)
  | some segments =>
    rw [hm] at h
    cases hs : (columns 0 segments)[s]? with
    | none => simp [hs] at h
    | some column? =>
      have hcolumn : column? = some column := by simpa [hs] using h
      cases hget : Dictionary.get? shifts (l : Int) with
      | none => simp [hs, hcolumn, hnone]
      | some here => simp [columns_moveSegments, hs, hcolumn]

end Packwright.SourceMap
