import Mathlib.Data.List.Infix
import Packwright.Proofs.DocComment.Closing

/-!
# The lines of a block

A block is to show each line of its run: without the marker that it starts with, with links
completed and with closing marks defused (`Shows`).

* `shownLine` is what the block has for a line; a body is these, one behind the other (`body_eq`).
* A line is cut at line breaks other than the newline as well, and each piece loses a marker. So the
  block shows a line as it is to be exactly if no marker stands behind such a line break
  (`mangle_shows_iff`); `exists_lost_marker` is a line that it does not.
-/

namespace Packwright.DocComment

open Packwright.Text

/-! ## Lines as they are to be shown -/

/-- Whether a text is what a block is to show of a documentation line. The marker at the start of
the line goes, with one blank behind it if there is one; then the starts of links on the same page
get the address in front, and then closing marks are defused. -/
def Shows (base line shown : List Char) : Prop :=
  ∃ indent text linked, (∀ c ∈ indent, c = ' ' ∨ c = '\t') ∧ line = indent ++ marker ++ text ∧
    Exchanged linkStart (linkTemplate base) (indent ++ dropBlank text) linked ∧
    Exchanged closing defused linked shown

/-- No link starts in an indent. -/
theorem linked_eq {indent : List Char} (hindent : ∀ c ∈ indent, c = ' ' ∨ c = '\t')
    (link text : List Char) :
    replaceAll linkStart link (indent ++ text) = indent ++ replaceAll linkStart link text := by
  apply replaceAll_append_of_forall linkStart_ne_nil
  intro c hc
  rcases hindent c hc with rfl | rfl <;> decide

theorem linked_marker (link text : List Char) :
    replaceAll linkStart link (marker ++ text) = marker ++ replaceAll linkStart link text :=
  replaceAll_append_of_forall linkStart_ne_nil (by simp [marker, linkStart]) link text

/-- Links do not start or end blanks, so a blank may go before or after they are completed. -/
theorem dropBlank_linked (base text : List Char) :
    dropBlank (replaceAll linkStart (linkTemplate base) text) =
      replaceAll linkStart (linkTemplate base) (dropBlank text) := by
  have hlinked := exchanged_replaceAll linkStart_ne_nil (linkTemplate base) text
  -- completing links keeps the first character, so the blank is there before and after
  have hhead := hlinked.head?_eq (c := ']') rfl rfl
  cases text with
  | nil => rw [replaceAll_nil]; rfl
  | cons c text =>
    by_cases hc : c = ' '
    · subst hc
      have hblank : ∀ d ∈ [' '], d ∉ linkStart := List.forall_mem_singleton.mpr (by decide)
      rw [← List.singleton_append, replaceAll_append_of_forall linkStart_ne_nil hblank]
      rfl
    · have hkeeps : ∀ s : List Char, s.head? = some c → dropBlank s = s := by
        intro s hs
        cases s with
        | nil => rfl
        | cons d s => simp_all [dropBlank]
      rw [hkeeps _ hhead, hkeeps (c :: text) rfl]

/-- The marker behind an indent is the first one, since indents have no slash. -/
theorem dropMarker_indent {indent : List Char} (hindent : ∀ c ∈ indent, c = ' ' ∨ c = '\t')
    (text : List Char) : dropMarker (indent ++ marker ++ text) = indent ++ dropBlank text := by
  induction indent with
  | nil => exact dropMarker_marker text
  | cons c indent ih =>
    obtain ⟨hc, hrest⟩ := List.forall_mem_cons.mp hindent
    have hnone : ¬ marker <+: c :: (indent ++ marker ++ text) := fun h => by
      obtain rfl : '/' = c := (List.cons_prefix_cons.mp h).1
      exact absurd hc (by decide)
    rw [List.cons_append, List.cons_append, dropMarker_cons hnone, ih hrest, List.cons_append]

/-- **A line is to be shown in one way**, which is what comes of it if it is not cut. -/
theorem shows_iff {base line shown : List Char} (h : IsDoc line) :
    Shows base line shown ↔
      shown = shownPiece (replaceAll linkStart (linkTemplate base) line) := by
  -- the marker behind the indent is the one that is dropped, and links are completed around it
  have hpiece : ∀ indent text, (∀ c ∈ indent, c = ' ' ∨ c = '\t') →
      shownPiece (replaceAll linkStart (linkTemplate base) (indent ++ marker ++ text)) =
        replaceAll closing defused
          (replaceAll linkStart (linkTemplate base) (indent ++ dropBlank text)) := by
    intro indent text hindent
    rw [shownPiece, List.append_assoc, linked_eq hindent, linked_marker, ← List.append_assoc,
      dropMarker_indent hindent, dropBlank_linked, linked_eq hindent]
  constructor
  · rintro ⟨indent, text, linked, hindent, rfl, hlinked, hshown⟩
    rw [hpiece indent text hindent, ← (exchanged_iff linkStart_ne_nil).mp hlinked]
    exact (exchanged_iff closing_ne_nil).mp hshown
  · rintro rfl
    obtain ⟨indent, text, hindent, rfl⟩ := h
    refine ⟨indent, text, _, hindent, rfl, exchanged_replaceAll linkStart_ne_nil _ _, ?_⟩
    rw [hpiece indent text hindent]
    exact exchanged_replaceAll closing_ne_nil _ _

/-! ## Lines as they are shown -/

/-- What a block has for a line of its run, the newline included. -/
def shownLine (link line : List Char) : List Char :=
  ((pieces (replaceAll linkStart link line ++ ['\n'])).map shownPiece).flatten

/-- **A body is what it has for the lines of its run.** -/
theorem body_eq (link : List Char) (lines : List (List Char)) :
    body link lines = lines.flatMap (shownLine link) := by
  rw [body_eq_flatten]
  induction lines with
  | nil =>
    show ((pieces (replaceAll linkStart link [])).map shownPiece).flatten = []
    rw [replaceAll_nil]
    rfl
  | cons line more ih =>
    rw [textOfLines_cons, replaceAll_append linkStart_ne_nil newline_not_mem_linkStart,
      pieces_append_newline, List.map_append, List.flatten_append, ih, List.flatMap_cons]
    rfl

/-! ## Markers behind the first one -/

/-- A marker that is dropped takes its slashes along. -/
theorem count_dropMarker {s : List Char} (h : marker <:+: s) :
    (dropMarker s).count '/' + 3 = s.count '/' := by
  induction s with
  | nil => exact absurd h (by decide)
  | cons c rest ih =>
    by_cases hmarker : marker <+: c :: rest
    · obtain ⟨text, htext⟩ := hmarker
      have hblank : (dropBlank text).count '/' = text.count '/' := by
        cases text with
        | nil => rfl
        | cons d text => by_cases hd : d = ' ' <;> simp [dropBlank, hd]
      -- the marker is three slashes, and a blank is none
      have hthree : marker.count '/' = 3 := by decide
      rw [← htext, dropMarker_marker, List.count_append]
      omega
    · have hrest := ih ((List.infix_cons_iff.mp h).resolve_left hmarker)
      rw [dropMarker_cons hmarker, List.count_cons, List.count_cons]
      omega

theorem count_defused (s : List Char) :
    (replaceAll closing defused s).count '/' = s.count '/' :=
  count_replaceAll_of_count_eq (by decide) s

/-- A closing mark lies within one text, if each ends its line. -/
theorem replaceAll_closing_flatten {texts : List (List Char)} (h : ∀ text ∈ texts, EndsLine text) :
    replaceAll closing defused texts.flatten =
      (texts.map (replaceAll closing defused)).flatten := by
  induction texts with
  | nil => exact replaceAll_nil closing defused
  | cons text more ih =>
    obtain ⟨⟨start, b, rfl, hb⟩, hmore⟩ := List.forall_mem_cons.mp h
    have hout := not_mem_closing hb
    rw [List.flatten_cons, List.append_assoc, List.singleton_append,
      replaceAll_append closing_ne_nil hout, ih hmore, List.map_cons, List.flatten_cons,
      replaceAll_append closing_ne_nil hout, replaceAll_nil, List.append_assoc,
      List.singleton_append]

/-- Pieces lose three slashes for each marker that one of them has. -/
theorem count_shownPieces (texts : List (List Char)) :
    (texts.map shownPiece).flatten.count '/' + 3 * texts.countP (marker <:+: ·) =
      texts.flatten.count '/' := by
  induction texts with
  | nil => rfl
  | cons text more ih =>
    rw [List.map_cons, List.flatten_cons, List.flatten_cons, List.count_append, List.count_append,
      List.countP_cons, shownPiece, count_defused]
    by_cases hmarker : marker <:+: text
    · have hcount := count_dropMarker hmarker
      simp only [hmarker, decide_true, if_true]
      omega
    · simp only [dropMarker_of_unmarked hmarker, hmarker, decide_false, Bool.false_eq_true,
        if_false]
      omega

/-- **Pieces stay what they are without closing marks exactly if none of them has a marker.** -/
theorem shownPieces_eq_iff {texts : List (List Char)} (h : ∀ text ∈ texts, EndsLine text) :
    (texts.map shownPiece).flatten = replaceAll closing defused texts.flatten ↔
      ∀ text ∈ texts, ¬ marker <:+: text := by
  constructor
  · intro heq
    -- each marker that is dropped is three slashes less
    have hcount := count_shownPieces texts
    rw [heq, count_defused] at hcount
    have hnone : texts.countP (marker <:+: ·) = 0 := by omega
    simpa using List.countP_eq_zero.mp hnone
  · intro hnone
    rw [replaceAll_closing_flatten h]
    congr 1
    refine List.map_congr_left fun text htext => ?_
    rw [shownPiece, dropMarker_of_unmarked (hnone text htext)]

/-- **A line is shown whole exactly if no marker stands behind one of its line breaks.** -/
theorem shownLine_eq_iff {link line : List Char} (h : IsDoc line) :
    shownLine link line = shownPiece (replaceAll linkStart link line) ++ ['\n'] ↔
      ¬ OccursBehindBreak marker (replaceAll linkStart link line) := by
  obtain ⟨indent, text, hindent, rfl⟩ := h
  have hlinked : indent ++ marker <+: replaceAll linkStart link (indent ++ marker ++ text) := by
    rw [List.append_assoc, linked_eq hindent, linked_marker, ← List.append_assoc]
    exact List.prefix_append _ _
  unfold shownLine
  generalize replaceAll linkStart link (indent ++ marker ++ text) = linked at hlinked ⊢
  -- the first piece has the marker that the line starts with, and the others follow it
  obtain ⟨first, more, hpieces⟩ := exists_pieces_append linked [] '\n'
  have hends : ∀ piece ∈ first :: more, EndsLine piece := fun piece hpiece =>
    endsLine_of_mem_pieces (endsLine_newline linked) (hpieces ▸ hpiece)
  obtain ⟨⟨start, b, rfl, hb⟩, hmore⟩ := List.forall_mem_cons.mp hends
  have htext : start ++ b :: more.flatten = linked ++ ['\n'] := by
    rw [← flatten_pieces (linked ++ ['\n']), hpieces]
    simp
  have hslash : b ≠ '/' := ne_of_isLineBreak hb (by decide)
  have hfirst : marker <:+: start := by
    have hout : b ∉ indent ++ marker := by
      intro hmem
      rcases List.mem_append.mp hmem with hblank | hmarker
      · rcases hindent b hblank with rfl | rfl <;> exact absurd hb (by decide)
      · exact hslash (by simpa [marker] using hmarker)
    have hprefix : indent ++ marker <+: start ++ b :: more.flatten :=
      htext ▸ hlinked.trans (List.prefix_append _ _)
    rw [prefix_append_cons_iff hout] at hprefix
    exact (List.suffix_append indent marker).isInfix.trans hprefix.isInfix
  have hwhole : shownPiece linked ++ ['\n'] =
      shownPiece (start ++ [b]) ++ replaceAll closing defused more.flatten := by
    rw [← shownPiece_concat (by decide), ← htext, shownPiece_concat hb, shownPiece, shownPiece,
      dropMarker_append hslash (ne_of_isLineBreak hb (by decide)) hfirst,
      replaceAll_append closing_ne_nil (not_mem_closing hb), List.append_assoc,
      List.singleton_append]
  have hbehind := exists_mem_tail_pieces_iff not_isLineBreak_marker (by decide)
    (endsLine_newline linked)
  rw [hpieces, List.tail_cons, occursBehindBreak_concat_iff (by decide) (by decide)] at hbehind
  rw [hpieces, List.map_cons, List.flatten_cons, hwhole, List.append_right_inj,
    shownPieces_eq_iff hmore, ← hbehind]
  simp

/-- **Lines are shown as they are to be, up to markers behind line breaks.** With an address that is
no template, the block of a run has each line as it is to be shown exactly if, with its links
completed, it has no marker behind a line break other than the newline. -/
theorem mangle_shows_iff (base text : String) (hslash : '\\' ∉ base.toList) :
    ∃ found rest, Layout text.toList found rest ∧
      mangle base text = .ok (String.ofList (found.flatMap (Block.written fun lines =>
        lines.flatMap (shownLine (linkTemplate base.toList))) ++ rest)) ∧
      ∀ lines, .run lines ∈ found → ∀ line ∈ lines, ∃ linked shown,
        Exchanged linkStart (linkTemplate base.toList) line linked ∧
        (∀ other, Shows base.toList line other ↔ other = shown) ∧
        (shownLine (linkTemplate base.toList) line = shown ++ ['\n'] ↔
          ¬ OccursBehindBreak marker linked) := by
  obtain ⟨found, rest, hlayout⟩ := exists_layout text.toList
  refine ⟨found, rest, hlayout, ?_, fun lines hlines line hline => ?_⟩
  · have hbody : body (linkTemplate base.toList) =
        fun lines => lines.flatMap (shownLine (linkTemplate base.toList)) :=
      funext (body_eq _)
    rw [mangle, mangleChars_of_layout hlayout hslash, hbody]
    rfl
  · have hdoc : IsDoc line := ((hlayout.proper _ hlines).2 line hline).2
    exact ⟨_, _, exchanged_replaceAll linkStart_ne_nil _ line, fun _ => shows_iff hdoc,
      shownLine_eq_iff hdoc⟩

/-- A carriage return in front of the newline, a marker in the middle of the line, a link, and
closing marks at its end and in front of that marker. -/
theorem mangle_shows_iff_carriageReturn :
    '\\' ∉ "d/".toList ∧
      mangle "d/" "  /// a*////// [b](#c)*/\r\n" =
        .ok "  /**\n  a*\\////// [b](d/#c)*\\/\r\n  */\n" ∧
      Shows "d/".toList "  /// a*////// [b](#c)*/\r".toList
        "  a*\\////// [b](d/#c)*\\/\r".toList := by
  have hslash : '\\' ∉ "d/".toList := by decide
  obtain ⟨found, rest, hlayout, hmangle, hlines⟩ :=
    mangle_shows_iff "d/" "  /// a*////// [b](#c)*/\r\n" hslash
  obtain ⟨rfl, rfl⟩ := hlayout.eq_blocks
  obtain ⟨linked, shown, hlinked, hshows, hshown⟩ :=
    hlines ["  /// a*////// [b](#c)*/\r".toList] (by decide) _ List.mem_cons_self
  obtain rfl := (exchanged_iff linkStart_ne_nil).mp hlinked
  -- no break but the one at the end stands before a marker
  have hline := hshown.mpr (by decide)
  refine ⟨hslash, hmangle.trans (by decide), (hshows _).mpr ?_⟩
  exact List.append_cancel_right (Eq.trans (by decide) hline)

/-- A form feed cuts a line, and the marker in the piece behind it is dropped as well. -/
theorem exists_lost_marker :
    mangle "d/" "/// a\x0cb /// c\n" = .ok "/**\na\x0cb c\n*/\n" ∧
      Shows "d/".toList "/// a\x0cb /// c".toList "a\x0cb /// c".toList ∧
      ∀ shown, Shows "d/".toList "/// a\x0cb /// c".toList shown →
        mangle "d/" "/// a\x0cb /// c\n" ≠
          .ok (String.ofList ("/**\n".toList ++ shown ++ "\n*/\n".toList)) := by
  have hmangle : mangle "d/" "/// a\x0cb /// c\n" = .ok "/**\na\x0cb c\n*/\n" := by decide
  have hdoc : IsDoc "/// a\x0cb /// c".toList := by decide
  refine ⟨hmangle, (shows_iff hdoc).mpr (by decide), fun shown hshown => ?_⟩
  rw [hmangle, (shows_iff hdoc).mp hshown]
  decide

end Packwright.DocComment
