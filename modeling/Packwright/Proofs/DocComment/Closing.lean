import Packwright.Proofs.DocComment.Runs
import Packwright.Proofs.Text.Pieces

/-!
# Blocks close where they end

A run of documentation lines may say anything, and so may the address that links are completed by.
The block comment that it becomes is closed by its last line all the same.

* `shownPiece` is what becomes of each line of a run, whatever line break ends it. No closing mark
  is left in it (`not_infix_shownPiece`), and it still ends in the line break
  (`endsLine_shownPiece`), so none comes about where two of them meet (`exists_body_eq`).
* `ClosesAtEnd` says of a block that the first closing mark behind its opening mark is the one on
  its last line; `closesAtEnd_run` that every run is written so.
-/

namespace Packwright.DocComment

open Packwright.Text

/-! ## Dropping markers -/

/-- A text without one blank at its start. -/
def dropBlank : List Char → List Char
  | ' ' :: rest => rest
  | rest => rest

/-- Dropping a blank in front does not look past the next character. -/
theorem dropBlank_append {b : Char} (hb : b ≠ ' ') (s t : List Char) :
    dropBlank (s ++ b :: t) = dropBlank s ++ b :: t := by
  cases s with
  | nil => simp [dropBlank, hb]
  | cons c rest => by_cases hc : c = ' ' <;> simp [dropBlank, hc]

/-- The marker in front is dropped, with one blank behind it. -/
theorem dropMarker_marker (text : List Char) : dropMarker (marker ++ text) = dropBlank text := by
  cases text with
  | nil => rfl
  | cons c rest => by_cases hc : c = ' ' <;> simp [marker, dropMarker, dropBlank, hc]

/-- Where no marker starts, it is looked for further on. -/
theorem dropMarker_cons {c : Char} {rest : List Char} (h : ¬ marker <+: c :: rest) :
    dropMarker (c :: rest) = c :: dropMarker rest := by
  rw [dropMarker]
  · rintro tail rfl rfl
    exact h ⟨' ' :: tail, rfl⟩
  · rintro tail rfl rfl
    exact h ⟨tail, rfl⟩

/-- Without a marker nothing is dropped. -/
theorem dropMarker_of_unmarked {s : List Char} (h : ¬ marker <:+: s) : dropMarker s = s := by
  induction s with
  | nil => rfl
  | cons c rest ih =>
    rw [List.infix_cons_iff, not_or] at h
    rw [dropMarker_cons h.1, ih h.2]

/-- Only the first marker is dropped. -/
theorem dropMarker_append {b : Char} (hslash : b ≠ '/') (hblank : b ≠ ' ') {s : List Char}
    (h : marker <:+: s) (t : List Char) : dropMarker (s ++ b :: t) = dropMarker s ++ b :: t := by
  have hout : b ∉ marker := by simpa [marker] using hslash
  induction s with
  | nil => exact absurd h (by decide)
  | cons c rest ih =>
    by_cases hmarker : marker <+: c :: rest
    · obtain ⟨text, htext⟩ := hmarker
      rw [← htext, List.append_assoc, dropMarker_marker, dropMarker_marker,
        dropBlank_append hblank]
    · -- the character is none of the marker, so it cannot complete one that begins before it
      have hnone : ¬ marker <+: c :: (rest ++ b :: t) := by
        rwa [← List.cons_append, prefix_append_cons_iff hout]
      rw [List.cons_append, dropMarker_cons hnone,
        ih ((List.infix_cons_iff.mp h).resolve_left hmarker), dropMarker_cons hmarker,
        List.cons_append]

/-- So a character at the end stays there, unless it could belong to a marker or be its blank. -/
theorem dropMarker_concat {b : Char} (hslash : b ≠ '/') (hblank : b ≠ ' ') (s : List Char) :
    dropMarker (s ++ [b]) = dropMarker s ++ [b] := by
  by_cases hmarker : marker <:+: s
  · exact dropMarker_append hslash hblank hmarker []
  · have hout : b ∉ marker := by simpa [marker] using hslash
    have hnone : ¬ marker <:+: s ++ [b] := by
      rw [infix_append_cons_iff hout]
      exact not_or.mpr ⟨hmarker, by decide⟩
    rw [dropMarker_of_unmarked hmarker, dropMarker_of_unmarked hnone]

/-! ## What becomes of a piece -/

/-- A piece of a run as it stands in the block: its marker dropped, and closing marks defused. -/
def shownPiece (piece : List Char) : List Char :=
  replaceAll closing defused (dropMarker piece)

/-- The mark is not empty, so that replacing it is defined. -/
theorem closing_ne_nil : closing ≠ [] := by decide

theorem not_isLineBreak_marker : ∀ c ∈ marker, ¬ isLineBreak c = true := by
  simp [marker, isLineBreak]

theorem not_isLineBreak_closing : ∀ c ∈ closing, ¬ isLineBreak c = true := by
  simp [closing, isLineBreak]

theorem not_mem_closing {b : Char} (hb : isLineBreak b = true) : b ∉ closing :=
  fun hmem => not_isLineBreak_closing b hmem hb

/-- The line break at the end of a piece stays at its end. -/
theorem shownPiece_concat {b : Char} (hb : isLineBreak b = true) (s : List Char) :
    shownPiece (s ++ [b]) = shownPiece s ++ [b] := by
  have hslash : b ≠ '/' := ne_of_isLineBreak hb (by decide)
  have hblank : b ≠ ' ' := ne_of_isLineBreak hb (by decide)
  rw [shownPiece, dropMarker_concat hslash hblank,
    replaceAll_append closing_ne_nil (not_mem_closing hb), replaceAll_nil, shownPiece]

/-- **A line break at the end of a piece stays there.** -/
theorem endsLine_shownPiece {piece : List Char} (h : EndsLine piece) :
    EndsLine (shownPiece piece) := by
  obtain ⟨start, b, rfl, hb⟩ := h
  exact ⟨shownPiece start, b, shownPiece_concat hb start, hb⟩

/-- **Where closing marks have been defused, none is left.** -/
theorem not_infix_defused {s out : List Char} (h : Exchanged closing defused s out) :
    ¬ closing <:+: out := by
  induction h with
  | done => decide
  | @hit rest out hrest ih =>
    -- the backslash stands between the star and the slash
    have hbackslash : '\\' ∉ closing := by decide
    have hout : ¬ closing <:+: '/' :: out := by
      intro hoccurs
      rcases List.infix_cons_iff.mp hoccurs with hprefix | hoccurs
      · exact absurd (List.cons_prefix_cons.mp hprefix).1 (by decide)
      · exact ih hoccurs
    show ¬ closing <:+: ['*'] ++ '\\' :: '/' :: out
    rw [infix_append_cons_iff hbackslash, not_or]
    exact ⟨by decide, hout⟩
  | @miss c rest out hnone hrest ih =>
    intro hoccurs
    rcases List.infix_cons_iff.mp hoccurs with hprefix | hoccurs
    · -- behind the character stands what stood there before, so the mark would have been found
      obtain ⟨rfl, more, rfl⟩ := List.cons_prefix_cons.mp hprefix
      have hhead := hrest.head?_eq (c := '*') rfl rfl
      cases rest with
      | nil => exact absurd hhead (by simp)
      | cons d rest =>
        obtain rfl : '/' = d := Option.some.inj hhead
        exact hnone ⟨rest, rfl⟩
    · exact ih hoccurs

/-- No mark that closes a comment is shown in a piece. -/
theorem not_infix_shownPiece (piece : List Char) : ¬ closing <:+: shownPiece piece :=
  not_infix_defused (exchanged_replaceAll closing_ne_nil defused _)

/-! ## Bodies -/

/-- The body is made of its pieces, each shown by itself. -/
theorem body_eq_flatten (link : List Char) (lines : List (List Char)) :
    body link lines =
      ((pieces (replaceAll linkStart link (textOfLines lines))).map shownPiece).flatten :=
  rfl

theorem linkStart_ne_nil : linkStart ≠ [] := by decide

theorem newline_not_mem_linkStart : '\n' ∉ linkStart := by decide

theorem exists_textOfLines_eq {lines : List (List Char)} (hne : lines ≠ []) :
    ∃ text, textOfLines lines = text ++ ['\n'] := by
  obtain ⟨front, line, rfl⟩ := (List.eq_nil_or_concat lines).resolve_left hne
  exact ⟨textOfLines front ++ line, by simp [textOfLines]⟩

/-- **The body of a block holds no closing mark**, and its last line ends in a newline. -/
theorem exists_body_eq (link : List Char) {lines : List (List Char)} (hne : lines ≠ []) :
    ∃ text, body link lines = text ++ ['\n'] ∧ ¬ closing <:+: text := by
  obtain ⟨source, hsource⟩ := exists_textOfLines_eq hne
  have hlinked := replaceAll_append linkStart_ne_nil newline_not_mem_linkStart link source []
  rw [replaceAll_nil] at hlinked
  rw [body_eq_flatten, hsource, hlinked]
  -- each piece ends in a line break, so no mark comes about where two of them meet
  have hmarks : ¬ closing <:+:
      ((pieces (replaceAll linkStart link source ++ ['\n'])).map shownPiece).flatten := by
    rw [infix_flatten_iff not_isLineBreak_closing closing_ne_nil]
    · rintro ⟨text, htext, hoccurs⟩
      obtain ⟨piece, -, rfl⟩ := List.mem_map.mp htext
      exact not_infix_shownPiece piece hoccurs
    · intro text htext
      obtain ⟨piece, hpiece, rfl⟩ := List.mem_map.mp htext
      exact endsLine_shownPiece (endsLine_of_mem_pieces (endsLine_newline _) hpiece)
  obtain ⟨front, start, hlast⟩ := exists_pieces_eq_concat (replaceAll linkStart link source)
  rw [hlast, List.map_append, List.map_singleton, List.flatten_append, List.flatten_singleton,
    shownPiece_concat (by decide), ← List.append_assoc] at hmarks ⊢
  exact ⟨_, rfl, fun hoccurs => hmarks (hoccurs.trans (List.prefix_append _ _).isInfix)⟩

/-! ## Blocks -/

/-- Whether a text occurs at a place of another and nowhere in front of it. -/
def FirstAt (part s : List Char) (place : Nat) : Prop :=
  part <+: s.drop place ∧ ∀ i < place, ¬ part <+: s.drop i

/-- Whether a block comment with an indentation is closed by its last line, whatever stands behind
it: the first closing mark behind its opening mark is the one on that line. -/
def ClosesAtEnd (indent block : List Char) : Prop :=
  ∃ inside text, block = indent ++ "/**".toList ++ inside ++ "*/\n".toList ∧
    inside = '\n' :: text ++ '\n' :: indent ∧
    ∀ behind, FirstAt closing (inside ++ "*/\n".toList ++ behind) inside.length

/-- Where no mark has come before, not even with its first half here, the one that is put here is
the first. -/
theorem firstAt_closing {s : List Char} (h : ¬ closing <:+: s ++ ['*']) (behind : List Char) :
    FirstAt closing (s ++ '*' :: '/' :: behind) s.length := by
  constructor
  · rw [List.drop_left]
    exact ⟨behind, rfl⟩
  · intro i hi hprefix
    apply h
    -- a mark that starts in front of the star ends with it at the latest
    have hdrop : (s ++ '*' :: '/' :: behind).drop i = (s.drop i ++ ['*']) ++ '/' :: behind := by
      rw [List.drop_append_of_le_length hi.le, List.append_assoc]
      rfl
    rw [hdrop] at hprefix
    have hlength : closing.length ≤ (s.drop i ++ ['*']).length := by
      rw [List.length_append, List.length_drop]
      show 2 ≤ s.length - i + 1
      omega
    have hshort := List.prefix_of_prefix_length_le hprefix (List.prefix_append _ _) hlength
    refine hshort.isInfix.trans ⟨s.take i, [], ?_⟩
    rw [List.append_nil, ← List.append_assoc, List.take_append_drop]

/-- **A run is written as a block that closes where it ends.** -/
theorem closesAtEnd_run {lines : List (List Char)} (h : (Block.run lines).IsProper)
    (link : List Char) :
    ClosesAtEnd ((lines.headD []).takeWhile isIndent) ((Block.run lines).render link) := by
  obtain ⟨text, hbody, hmarks⟩ := exists_body_eq link h.1
  have hindent : ∀ c ∈ (lines.headD []).takeWhile isIndent, isIndent c = true :=
    fun c hc => List.mem_takeWhile_imp hc
  rw [h.render_eq, Block.written, hbody]
  generalize (lines.headD []).takeWhile isIndent = indent at hindent ⊢
  refine ⟨'\n' :: text ++ '\n' :: indent, text, ?_, rfl, fun behind => ?_⟩
  · simp
  · have hfirst : ¬ closing <:+: '\n' :: text ++ '\n' :: indent ++ ['*'] := by
      have hnewline : '\n' ∉ closing := by decide
      -- the indent has no slash, so no mark ends within it
      have htail : ¬ closing <:+: indent ++ ['*'] := fun hoccurs => by
        have hslash : '/' ∈ indent ++ ['*'] := hoccurs.subset (by decide)
        rcases List.mem_append.mp hslash with hmem | hmem
        · exact absurd (hindent '/' hmem) (by decide)
        · exact absurd hmem (by decide)
      have hnil : ¬ closing <:+: [] := by decide
      rw [← List.nil_append ('\n' :: text ++ '\n' :: indent ++ ['*']), List.append_assoc,
        List.cons_append, infix_append_cons_iff hnewline, List.cons_append,
        infix_append_cons_iff hnewline]
      exact not_or.mpr ⟨hnil, not_or.mpr ⟨hmarks, htail⟩⟩
    have hclosed := firstAt_closing hfirst ('\n' :: behind)
    rwa [List.append_assoc]

/-- What a text is mangled into, if it is: its stretches as they are written, and its rest. -/
theorem exists_eq_of_mangleChars {base text out rest : List Char} {found : List Block}
    (hlayout : Layout text found rest) (h : mangleChars base text = .ok out) :
    ∃ link, out = found.flatMap (Block.render link) ++ rest := by
  obtain ⟨hfound, hrest⟩ := hlayout.eq_blocks
  unfold mangleChars at h
  simp only [← hfound, ← hrest] at h
  split at h
  · cases htemplate : Template.parse (linkTemplate base) with
    | error e => rw [htemplate] at h; exact absurd h (by simp [Bind.bind, Except.bind])
    | ok template =>
      rw [htemplate] at h
      exact ⟨Template.expand linkStart template, (Except.ok.inj h).symm⟩
  · rename_i hnone
    -- without a run the text is not touched, whatever the address
    have hplain : ∀ b ∈ found, b.isRun = false := by simpa using hnone
    refine ⟨[], ?_⟩
    rw [(flatMap_eq_of_proper hlayout.proper []).1, flatMap_written_of_plain hplain,
      ← hlayout.text_eq]
    exact (Except.ok.inj h).symm

/-- **Blocks close where they end.** Whatever a text says, and whatever address its links are
completed by, if it can be mangled then it is mangled into its stretches as they are written, and
in the block of each run the first closing mark behind the opening one is on the block's last
line. -/
theorem mangle_blocks_close {base text out : String} (h : mangle base text = .ok out) :
    ∃ found rest link, Layout text.toList found rest ∧
      out.toList = found.flatMap (Block.render link) ++ rest ∧
      ∀ lines, .run lines ∈ found →
        ClosesAtEnd ((lines.headD []).takeWhile isIndent) ((Block.run lines).render link) := by
  obtain ⟨found, rest, hlayout⟩ := exists_layout text.toList
  have hchars : mangleChars base.toList text.toList = .ok out.toList := by
    unfold mangle at h
    cases hmangle : mangleChars base.toList text.toList with
    | error e => rw [hmangle] at h; exact absurd h (by simp [Except.map])
    | ok chars =>
      rw [hmangle] at h
      rw [← Except.ok.inj h, String.toList_ofList]
  obtain ⟨link, hout⟩ := exists_eq_of_mangleChars hlayout hchars
  exact ⟨found, rest, link, hlayout, hout, fun lines hlines =>
    closesAtEnd_run (hlayout.proper _ hlines) link⟩

/-- An address with a closing mark, a newline and a reference in it, and a run with a closing mark
that comes about when a marker goes. -/
theorem mangle_blocks_close_hostileRun :
    mangle "*/\\n*\\g<0>/" "\t/// *//// [x](#y)*/\u2028*/// /\nf()\n" =
        .ok "\t/**\n\t*\\//// [x](*\\/\n*](#/#y)*\\/\u2028*\\/\n\t*/\nf()\n" ∧
      ∃ link, ClosesAtEnd ['\t']
        ((Block.run ["\t/// *//// [x](#y)*/\u2028*/// /".toList]).render link) := by
  have h : mangle "*/\\n*\\g<0>/" "\t/// *//// [x](#y)*/\u2028*/// /\nf()\n" =
      .ok "\t/**\n\t*\\//// [x](*\\/\n*](#/#y)*\\/\u2028*\\/\n\t*/\nf()\n" := by decide
  obtain ⟨found, rest, link, hlayout, -, hruns⟩ := mangle_blocks_close h
  obtain ⟨rfl, rfl⟩ := hlayout.eq_blocks
  exact ⟨h, link, hruns _ (by decide)⟩

end Packwright.DocComment
