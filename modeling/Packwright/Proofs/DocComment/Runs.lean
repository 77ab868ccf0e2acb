import Packwright.Proofs.DocComment.Layout
import Packwright.Proofs.Template
import Packwright.Proofs.Text.Search

/-!
# Only runs of documentation lines are changed

With an address that is no template and has no newline, a text is the concatenation of its stretches
also after mangling: the lines that are no documentation and the unterminated rest stand where they
stood, and each run is one block comment with two more lines than the run.

* `Block.written` writes a stretch, a run as a block around a body.
* `count_newline_body`: what is done to the lines of a run neither makes nor removes a line.
* `mangleChars_of_layout` gives the mangled text of a layout.
-/

namespace Packwright.DocComment

open Packwright.Text

/-! ## The lines of a body -/

/-- Dropping a marker takes no newline. -/
theorem count_newline_dropMarker (line : List Char) :
    (dropMarker line).count '\n' = line.count '\n' := by
  fun_induction dropMarker line with
  | case1 => rfl
  | case2 rest => simp
  | case3 rest _ => simp
  | case4 c rest _ _ ih => rw [List.count_cons, List.count_cons, ih]

/-- What keeps the count in each text keeps it in all together. -/
theorem count_flatten_map {c : Char} {g : List Char → List Char}
    (hg : ∀ s, (g s).count c = s.count c) (texts : List (List Char)) :
    (texts.map g).flatten.count c = texts.flatten.count c := by
  induction texts with
  | nil => rfl
  | cons s more ih =>
    rw [List.map_cons, List.flatten_cons, List.flatten_cons, List.count_append, List.count_append,
      hg, ih]

/-- A text of lines has as many newlines as lines. -/
theorem count_newline_textOfLines {lines : List (List Char)} (h : ∀ line ∈ lines, '\n' ∉ line) :
    (textOfLines lines).count '\n' = lines.length := by
  induction lines with
  | nil => rfl
  | cons line more ih =>
    obtain ⟨hline, hmore⟩ := List.forall_mem_cons.mp h
    rw [textOfLines_cons, List.count_append, List.count_eq_zero.mpr hline, List.count_cons_self,
      ih hmore, List.length_cons, Nat.zero_add]

/-- **A body has as many lines as its run.** -/
theorem count_newline_body {link : List Char} (hlink : '\n' ∉ link) {lines : List (List Char)}
    (h : ∀ line ∈ lines, '\n' ∉ line) : (body link lines).count '\n' = lines.length := by
  have hline : ∀ line, (replaceAll closing defused (dropMarker line)).count '\n' =
      line.count '\n' := fun line => by
    rw [count_replaceAll (by decide) (by decide), count_newline_dropMarker]
  unfold body
  rw [count_flatten_map hline, flatten_pieces, count_replaceAll (by decide) hlink,
    count_newline_textOfLines h]

/-! ## Stretches as they are written -/

/-- A stretch as it is written, when `body` writes the lines of a run. The block is indented as the
first line of the run is. -/
def Block.written (body : List (List Char) → List Char) : Block → List Char
  | .run lines =>
    let indent := (lines.headD []).takeWhile isIndent
    indent ++ "/**\n".toList ++ body lines ++ indent ++ "*/\n".toList
  | .plain line => line ++ ['\n']

theorem newline_not_mem_takeWhile (line : List Char) : '\n' ∉ line.takeWhile isIndent :=
  fun hmem => absurd (List.mem_takeWhile_imp hmem) (by decide)

/-- The indent of a run is that of its first line. -/
theorem takeWhile_textOfLines {lines : List (List Char)} (h : (Block.run lines).IsProper) :
    (textOfLines lines).takeWhile isIndent = (lines.headD []).takeWhile isIndent := by
  obtain ⟨hne, hlines⟩ := h
  cases lines with
  | nil => exact absurd rfl hne
  | cons line more =>
    obtain ⟨-, indent, text, hindent, rfl⟩ := hlines line List.mem_cons_self
    -- the marker ends the indentation, whatever stands behind it
    rw [textOfLines_cons, List.headD_cons, List.append_assoc (indent ++ marker),
      (takeWhile_dropWhile_indent hindent _).1, (takeWhile_dropWhile_indent hindent _).1]

/-- Of a proper block, what is rendered is what should be written. -/
theorem Block.IsProper.render_eq {b : Block} (h : b.IsProper) (link : List Char) :
    b.render link = b.written (body link) := by
  cases b with
  | plain line => rfl
  | run lines =>
    show renderRun link lines = _
    unfold renderRun Block.written
    rw [takeWhile_textOfLines h]

/-- A written run has two lines more than before, and a plain block as many. -/
theorem Block.IsProper.count_written {b : Block} (h : b.IsProper) {link : List Char}
    (hlink : '\n' ∉ link) :
    (b.written (body link)).count '\n' = b.source.count '\n' + if b.isRun then 2 else 0 := by
  cases b with
  | plain line => simp [Block.written, Block.source, Block.lines, textOfLines, Block.isRun]
  | run lines =>
    have hlines : ∀ line ∈ lines, '\n' ∉ line := fun line hline => (h.2 line hline).1
    have hindent := List.count_eq_zero.mpr (newline_not_mem_takeWhile (lines.headD []))
    unfold Block.written Block.source Block.lines Block.isRun
    simp only [List.count_append, hindent, count_newline_body hlink hlines,
      count_newline_textOfLines hlines, if_true]
    -- a newline behind the opening and one behind the end; the body has as many as the run
    have hopening : "/**\n".toList.count '\n' = 1 := by decide
    have hend : "*/\n".toList.count '\n' = 1 := by decide
    omega

/-- So the text has two lines more for each run. -/
theorem count_flatMap_written {found : List Block} (hproper : ∀ b ∈ found, b.IsProper)
    {link : List Char} (hlink : '\n' ∉ link) :
    (found.flatMap (Block.written (body link))).count '\n' =
      (found.flatMap Block.source).count '\n' + 2 * found.countP Block.isRun := by
  induction found with
  | nil => rfl
  | cons b more ih =>
    obtain ⟨hb, hmore⟩ := List.forall_mem_cons.mp hproper
    rw [List.flatMap_cons, List.flatMap_cons, List.count_append, List.count_append,
      hb.count_written hlink, ih hmore, List.countP_cons]
    split <;> omega

/-- Rendering the blocks, and exchanging the matches of the search in them, both write what should
be written. -/
theorem flatMap_eq_of_proper {found : List Block} (hproper : ∀ b ∈ found, b.IsProper)
    (link : List Char) :
    found.flatMap (Block.render link) = found.flatMap (Block.written (body link)) ∧
      found.flatMap (Block.exchanged fun run => renderRun link (newlineLines run).1) =
        found.flatMap (Block.written (body link)) := by
  -- the search hands the text of the run over, which falls into its lines again
  have hexchanged : ∀ b ∈ found,
      b.exchanged (fun run => renderRun link (newlineLines run).1) = b.render link := by
    intro b hb
    cases b with
    | plain line => rfl
    | run lines =>
      have hlines : newlineLines (textOfLines lines ++ []) = (lines, []) :=
        newlineLines_textOfLines (fun line hline => (hproper _ hb).not_mem hline) (by simp)
      rw [List.append_nil] at hlines
      show renderRun link (newlineLines (textOfLines lines)).1 = renderRun link lines
      rw [hlines]
  have hrender : ∀ b ∈ found, b.render link = b.written (body link) := fun b hb =>
    (hproper b hb).render_eq link
  exact ⟨List.flatMap_congr hrender,
    (List.flatMap_congr hexchanged).trans (List.flatMap_congr hrender)⟩

/-! ## The mangled text -/

/-- Without runs the text is its own source. -/
theorem flatMap_written_of_plain {found : List Block} (h : ∀ b ∈ found, b.isRun = false)
    (body : List (List Char) → List Char) :
    found.flatMap (Block.written body) = found.flatMap Block.source := by
  refine List.flatMap_congr fun b hb => ?_
  cases b with
  | plain line => simp [Block.written, Block.source, Block.lines, textOfLines]
  | run lines => exact absurd (h _ hb) (by simp [Block.isRun])

/-- **The mangled text of a layout**, when the template of its links is accepted. -/
theorem mangleChars_of_parse {base text rest : List Char} {found : List Block}
    (h : Layout text found rest) {template : List Template.Piece}
    (hparse : Template.parse (linkTemplate base) = .ok template) :
    mangleChars base text =
      .ok (found.flatMap (Block.written (body (Template.expand linkStart template))) ++ rest) := by
  obtain ⟨hfound, hrest⟩ := h.eq_blocks
  unfold mangleChars
  simp only [← hfound, ← hrest]
  split
  · rw [hparse]
    show Except.ok _ = _
    rw [(flatMap_eq_of_proper h.proper _).1]
  · -- without a run the text is not looked at any further
    rename_i hnone
    have hplain : ∀ b ∈ found, b.isRun = false := by simpa using hnone
    rw [flatMap_written_of_plain hplain, ← h.text_eq]

/-- A text with a run is refused if the template is. -/
theorem mangleChars_of_parse_error {base text rest : List Char} {found : List Block}
    (h : Layout text found rest) {lines : List (List Char)} (hrun : .run lines ∈ found)
    {e : Template.Error} (hparse : Template.parse (linkTemplate base) = .error e) :
    mangleChars base text = .error e := by
  obtain ⟨hfound, hrest⟩ := h.eq_blocks
  have hany : found.any Block.isRun = true := List.any_eq_true.mpr ⟨_, hrun, rfl⟩
  unfold mangleChars
  simp only [← hfound, ← hrest, hany, if_true, hparse]
  rfl

/-- **The mangled text of a layout**, when the address is no more than its characters. -/
theorem mangleChars_of_layout {base text rest : List Char} {found : List Block}
    (h : Layout text found rest) (hslash : '\\' ∉ base) :
    mangleChars base text =
      .ok (found.flatMap (Block.written (body (linkTemplate base))) ++ rest) := by
  have hlink : '\\' ∉ linkTemplate base := by simp [linkTemplate, hslash]
  rw [mangleChars_of_parse h (Template.parse_of_isVerbatim (Template.isVerbatim_of_not_mem hlink)),
    Template.expand_chars]

/-- **Only runs of documentation lines are changed.** A text is in one way a sequence of lines, of
runs as long as possible, and of a rest. It is mangled by writing each run as a block whose body has
as many lines as the run; these runs are what a search for them from the start of the text finds.
So there are two more newlines for each run, and a text without runs stays as it is. -/
theorem mangle_changes_only_runs (base text : String) (hslash : '\\' ∉ base.toList)
    (hbreak : '\n' ∉ base.toList) :
    ∃ found rest out, Layout text.toList found rest ∧
      (∀ found' rest', Layout text.toList found' rest' → found' = found ∧ rest' = rest) ∧
      mangle base text = .ok (String.ofList out) ∧
      out = found.flatMap (Block.written (body (linkTemplate base.toList))) ++ rest ∧
      (∀ lines, .run lines ∈ found →
        (body (linkTemplate base.toList) lines).count '\n' = lines.length) ∧
      (∀ out', Substituted (fun run => renderRun (linkTemplate base.toList) (newlineLines run).1)
        true text.toList out' ↔ out' = out) ∧
      out.count '\n' = text.toList.count '\n' + 2 * found.countP Block.isRun ∧
      ((∀ b ∈ found, b.isRun = false) → mangle base text = .ok text) := by
  obtain ⟨found, rest, h⟩ := exists_layout text.toList
  have hlink : '\n' ∉ linkTemplate base.toList := by simp [linkTemplate, hbreak]
  have hmangle : mangle base text = .ok (String.ofList
      (found.flatMap (Block.written (body (linkTemplate base.toList))) ++ rest)) := by
    unfold mangle
    rw [mangleChars_of_layout h hslash]
    rfl
  have hsearch := h.substituted fun run => renderRun (linkTemplate base.toList) (newlineLines run).1
  rw [(flatMap_eq_of_proper h.proper _).2] at hsearch
  refine ⟨found, rest, _, h, fun found' rest' h' => ?_, hmangle, rfl, fun lines hlines => ?_,
    fun out' => ⟨fun hout => hout.unique hsearch, fun heq => heq ▸ hsearch⟩, ?_, fun hplain => ?_⟩
  · exact ⟨h'.eq_blocks.1.trans h.eq_blocks.1.symm, h'.eq_blocks.2.trans h.eq_blocks.2.symm⟩
  · exact count_newline_body hlink fun line hline => ((h.proper _ hlines).2 line hline).1
  · rw [List.count_append, count_flatMap_written h.proper hlink, congrArg (List.count '\n') h.text_eq,
      List.count_append]
    omega
  · rw [hmangle, flatMap_written_of_plain hplain, ← h.text_eq, String.ofList_toList]

/-- Two runs, a marker in the middle of a line, four slashes, and a last line that nothing ends. -/
theorem mangle_changes_only_runs_twoRuns :
    '\\' ∉ "d/".toList ∧ '\n' ∉ "d/".toList ∧
      mangle "d/" "  /// See [it](#a) */\n\t////x\nf() /// no\n///\n/// open" =
        .ok "  /**\n  See [it](d/#a) *\\/\n\t/x\n  */\nf() /// no\n/**\n\n*/\n/// open" := by
  have hslash : '\\' ∉ "d/".toList := by decide
  have hbreak : '\n' ∉ "d/".toList := by decide
  obtain ⟨found, rest, out, -, hunique, hmangle, hout, -⟩ := mangle_changes_only_runs "d/"
    "  /// See [it](#a) */\n\t////x\nf() /// no\n///\n/// open" hslash hbreak
  -- the layout is unique, so it is enough to give it
  obtain ⟨rfl, rfl⟩ := hunique
    [.run ["  /// See [it](#a) */".toList, "\t////x".toList], .plain "f() /// no".toList,
      .run ["///".toList]]
    "/// open".toList ⟨by decide, by decide, by decide, by simp [Block.isRun]⟩
  refine ⟨hslash, hbreak, hmangle.trans ?_⟩
  rw [hout]
  decide

end Packwright.DocComment
