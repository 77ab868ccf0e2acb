import Mathlib.Data.List.Chain
import Mathlib.Data.List.TakeWhile
import Packwright.DocComment
import Packwright.Proofs.Text.Lines

/-!
# How a text falls into stretches

The runs of documentation lines in a text, described in two ways that do not read it line by line.

* A `Layout` says which stretches make up a text: lines that are no documentation, and runs that
  are as long as possible. Every text has exactly one (`exists_layout`, `Layout.eq_blocks`), and
  `blocks` finds it.
* `Substituted` says what comes of searching the text from its start for matches of a run, at the
  starts of lines only and the longest at each place, and putting something in place of each.
  `Layout.substituted`: the matches are the runs of the layout.
-/

namespace Packwright.DocComment

open Packwright.Text

/-! ## Documentation lines -/

/-- A documentation line: blanks and tabs, the marker, and any text. -/
def IsDoc (line : List Char) : Prop :=
  ∃ indent text, (∀ c ∈ indent, c = ' ' ∨ c = '\t') ∧ line = indent ++ marker ++ text

theorem isIndent_iff {c : Char} : isIndent c = true ↔ c = ' ' ∨ c = '\t' := by
  simp [isIndent]

/-- The blanks and tabs at the start of a documentation line end at its marker. -/
theorem takeWhile_dropWhile_indent {indent : List Char} (h : ∀ c ∈ indent, c = ' ' ∨ c = '\t')
    (text : List Char) :
    (indent ++ marker ++ text).takeWhile isIndent = indent ∧
      (indent ++ marker ++ text).dropWhile isIndent = marker ++ text := by
  have hall : ∀ c ∈ indent, isIndent c = true := fun c hc => isIndent_iff.mpr (h c hc)
  rw [List.append_assoc, List.takeWhile_append_of_pos hall, List.dropWhile_append_of_pos hall]
  exact ⟨List.append_nil indent, rfl⟩

/-- The test of a line says what it should. -/
theorem isDocLine_iff {line : List Char} : isDocLine line = true ↔ IsDoc line := by
  unfold isDocLine
  rw [List.isPrefixOf_iff_prefix]
  constructor
  · rintro ⟨text, htext⟩
    refine ⟨line.takeWhile isIndent, text, fun c hc => isIndent_iff.mp ?_, ?_⟩
    · exact List.mem_takeWhile_imp hc
    · rw [List.append_assoc, htext, List.takeWhile_append_dropWhile]
  · rintro ⟨indent, text, hindent, rfl⟩
    rw [(takeWhile_dropWhile_indent hindent text).2]
    exact List.prefix_append _ _

instance : DecidablePred IsDoc := fun _ => decidable_of_iff _ isDocLine_iff

/-! ## Layouts -/

namespace Block

def lines : Block → List (List Char)
  | run lines => lines
  | plain line => [line]

def source (b : Block) : List Char :=
  textOfLines b.lines

/-- Whether a stretch is what it says: documentation lines, at least one, or a line of another
kind. -/
def IsProper : Block → Prop
  | run lines => lines ≠ [] ∧ ∀ line ∈ lines, '\n' ∉ line ∧ IsDoc line
  | plain line => '\n' ∉ line ∧ ¬ IsDoc line

instance (b : Block) : Decidable b.IsProper :=
  match b with
  | run lines =>
    inferInstanceAs (Decidable (lines ≠ [] ∧ ∀ line ∈ lines, '\n' ∉ line ∧ IsDoc line))
  | plain line => inferInstanceAs (Decidable ('\n' ∉ line ∧ ¬ IsDoc line))

end Block

/-- The stretches that make up a text, and the rest that no newline ends. No run has another one
behind it, so runs are as long as possible. -/
structure Layout (text : List Char) (found : List Block) (rest : List Char) : Prop where
  text_eq : text = found.flatMap Block.source ++ rest
  rest_open : '\n' ∉ rest
  proper : ∀ b ∈ found, b.IsProper
  maximal : found.IsChain fun b next => ¬ (b.isRun ∧ next.isRun)

/-- The text of lines begins with the first one and its newline. -/
theorem textOfLines_cons (line : List Char) (more : List (List Char)) :
    textOfLines (line :: more) = line ++ '\n' :: textOfLines more := by
  simp [textOfLines]

theorem textOfLines_append (lines more : List (List Char)) :
    textOfLines (lines ++ more) = textOfLines lines ++ textOfLines more := by
  simp [textOfLines]

/-- The lines of a proper block hold no newline. -/
theorem Block.IsProper.not_mem {b : Block} (h : b.IsProper) {line : List Char}
    (hline : line ∈ b.lines) : '\n' ∉ line := by
  cases b with
  | run lines => exact (h.2 line hline).1
  | plain other => rw [List.mem_singleton.mp hline]; exact h.1

/-- So a text falls into the lines that it was made from. -/
theorem newlineLines_textOfLines {lines : List (List Char)} (h : ∀ line ∈ lines, '\n' ∉ line)
    {rest : List Char} (hrest : '\n' ∉ rest) :
    newlineLines (textOfLines lines ++ rest) = (lines, rest) := by
  induction lines with
  | nil => exact newlineLines_of_not_mem hrest
  | cons line more ih =>
    obtain ⟨hline, hmore⟩ := List.forall_mem_cons.mp h
    rw [textOfLines_cons, List.append_assoc, List.cons_append, newlineLines_line hline, ih hmore]

/-- The source of blocks is the text of their lines. -/
theorem flatMap_source (found : List Block) :
    found.flatMap Block.source = textOfLines (found.flatMap Block.lines) := by
  induction found with
  | nil => rfl
  | cons b more ih => rw [List.flatMap_cons, List.flatMap_cons, textOfLines_append, ih]; rfl

/-- A layout is one of the text's lines and its unterminated rest. -/
theorem Layout.newlineLines_eq {text rest : List Char} {found : List Block}
    (h : Layout text found rest) : newlineLines text = (found.flatMap Block.lines, rest) := by
  rw [h.text_eq, flatMap_source]
  refine newlineLines_textOfLines (fun line hline => ?_) h.rest_open
  obtain ⟨b, hb, hmem⟩ := List.mem_flatMap.mp hline
  exact (h.proper b hb).not_mem hmem

/-! ## The layout of a text -/

/-- A line that is no doc line is a block by itself. -/
theorem blocks_plain {line : List Char} (h : ¬ IsDoc line) (more : List (List Char)) :
    blocks (line :: more) = .plain line :: blocks more := by
  have hdoc : isDocLine line = false := by rw [← Bool.not_eq_true, isDocLine_iff]; exact h
  simp [blocks, hdoc]

/-- Documentation lines are one run, up to where the next stretch is no run. -/
theorem blocks_run {lines : List (List Char)} (hne : lines ≠ []) (hdoc : ∀ line ∈ lines, IsDoc line)
    {more : List (List Char)} (hmore : ∀ b ∈ (blocks more).head?, ¬ b.isRun) :
    blocks (lines ++ more) = .run lines :: blocks more := by
  induction lines with
  | nil => exact absurd rfl hne
  | cons line rest ih =>
    obtain ⟨hline, hrest⟩ := List.forall_mem_cons.mp hdoc
    rw [List.cons_append, blocks, if_pos (isDocLine_iff.mpr hline)]
    cases rest with
    | nil =>
      rw [List.nil_append]
      -- what follows does not begin with a run, so the last line closes this one
      cases hb : blocks more with
      | nil => rfl
      | cons b others =>
        cases b with
        | run lines => exact absurd rfl (hmore (.run lines) (by rw [hb]; exact rfl))
        | plain other => rfl
    | cons next rest => rw [ih (by simp) hrest]

/-- The lines of proper blocks, no two runs beside each other, are divided into these blocks again. -/
theorem blocks_flatMap_lines {found : List Block} (hproper : ∀ b ∈ found, b.IsProper)
    (hmax : found.IsChain fun b next => ¬ (b.isRun ∧ next.isRun)) :
    blocks (found.flatMap Block.lines) = found := by
  induction found with
  | nil => rfl
  | cons b more ih =>
    obtain ⟨hb, hmore⟩ := List.forall_mem_cons.mp hproper
    obtain ⟨hhead, htail⟩ := List.isChain_cons.mp hmax
    have hrest := ih hmore htail
    rw [List.flatMap_cons]
    cases b with
    | plain line =>
      show blocks (line :: more.flatMap Block.lines) = _
      rw [blocks_plain hb.2, hrest]
    | run lines =>
      show blocks (lines ++ more.flatMap Block.lines) = _
      rw [blocks_run hb.1 (fun line hline => (hb.2 line hline).2), hrest]
      rw [hrest]
      -- two runs do not stand beside each other
      exact fun next hnext hrun => hhead next hnext ⟨rfl, hrun⟩

/-- **A text has one layout only**, that of its lines. -/
theorem Layout.eq_blocks {text rest : List Char} {found : List Block} (h : Layout text found rest) :
    found = blocks (newlineLines text).1 ∧ rest = (newlineLines text).2 := by
  rw [h.newlineLines_eq]
  exact ⟨(blocks_flatMap_lines h.proper h.maximal).symm, rfl⟩

/-- What `blocks` finds are the lines it is given, in proper stretches as long as possible. -/
theorem blocks_spec {lines : List (List Char)} (h : ∀ line ∈ lines, '\n' ∉ line) :
    (blocks lines).flatMap Block.lines = lines ∧ (∀ b ∈ blocks lines, b.IsProper) ∧
      (blocks lines).IsChain fun b next => ¬ (b.isRun ∧ next.isRun) := by
  induction lines with
  | nil => exact ⟨rfl, by simp [blocks], List.IsChain.nil⟩
  | cons line rest ih =>
    obtain ⟨hline, hrest⟩ := List.forall_mem_cons.mp h
    obtain ⟨hlines, hproper, hmax⟩ := ih hrest
    by_cases hdoc : IsDoc line
    · rw [blocks, if_pos (isDocLine_iff.mpr hdoc)]
      -- the line joins the run behind it, if there is one, and else is a run by itself
      cases hb : blocks rest with
      | nil =>
        rw [hb] at hlines
        exact ⟨by rw [← hlines]; rfl,
          List.forall_mem_singleton.mpr ⟨by simp, by simpa using ⟨hline, hdoc⟩⟩,
          List.IsChain.singleton _⟩
      | cons b others =>
        rw [hb] at hlines hproper hmax
        obtain ⟨hfirst, hothers⟩ := List.forall_mem_cons.mp hproper
        cases b with
        | run lines =>
          refine ⟨by rw [← hlines]; rfl, List.forall_mem_cons.mpr ⟨⟨by simp, ?_⟩, hothers⟩, ?_⟩
          · exact List.forall_mem_cons.mpr ⟨⟨hline, hdoc⟩, hfirst.2⟩
          · exact List.isChain_cons.mpr (List.isChain_cons.mp hmax)
        | plain other =>
          refine ⟨by rw [← hlines]; rfl, List.forall_mem_cons.mpr ⟨?_, hproper⟩, ?_⟩
          · exact ⟨by simp, by simpa using ⟨hline, hdoc⟩⟩
          · exact List.isChain_cons_cons.mpr ⟨fun hruns => absurd hruns.2 (by simp [Block.isRun]),
              hmax⟩
    · rw [blocks_plain hdoc]
      refine ⟨by rw [List.flatMap_cons, hlines]; rfl,
        List.forall_mem_cons.mpr ⟨⟨hline, hdoc⟩, hproper⟩, List.isChain_cons.mpr ⟨?_, hmax⟩⟩
      exact fun _ _ hruns => absurd hruns.1 (by simp [Block.isRun])

/-- **Every text has a layout.** -/
theorem exists_layout (text : List Char) : ∃ found rest, Layout text found rest := by
  obtain ⟨hlines, hrest⟩ := not_mem_newlineLines text
  obtain ⟨hsame, hproper, hmax⟩ := blocks_spec hlines
  refine ⟨blocks (newlineLines text).1, (newlineLines text).2, ?_, hrest, hproper, hmax⟩
  rw [flatMap_source, hsame]
  exact (newlineLines_append text).symm

/-! ## Searching for runs

The same runs are found from the start of the text on, by looking for matches of a pattern: a line
start, and from there documentation lines with their newlines, as many as there are. What has been
matched is passed over, and a place without a match is passed over by one character. -/

/-- Whether a text is one or more documentation lines with their newlines. -/
def Matches (s : List Char) : Prop :=
  ∃ lines, (Block.run lines).IsProper ∧ s = textOfLines lines

/-- What comes of putting `f run` in place of every match. `atStart` tells whether the search
stands at the start of a line. -/
inductive Substituted (f : List Char → List Char) : (atStart : Bool) → List Char → List Char → Prop
  | done {atStart : Bool} : Substituted f atStart [] []
  | hit {run rest out : List Char} (hmatch : Matches run)
      (hlongest : ∀ longer, Matches longer → longer <+: run ++ rest → longer.length ≤ run.length)
      (hrest : Substituted f true rest out) : Substituted f true (run ++ rest) (f run ++ out)
  | miss {atStart : Bool} {c : Char} {rest out : List Char}
      (hnone : atStart = true → ∀ run, Matches run → ¬ run <+: c :: rest)
      (hrest : Substituted f (c == '\n') rest out) : Substituted f atStart (c :: rest) (c :: out)

/-- A match starts with a documentation line. -/
theorem Matches.exists_line {run : List Char} (h : Matches run) :
    ∃ line more, '\n' ∉ line ∧ IsDoc line ∧ run = line ++ '\n' :: more := by
  obtain ⟨lines, ⟨hne, hlines⟩, rfl⟩ := h
  cases lines with
  | nil => exact absurd rfl hne
  | cons line rest =>
    obtain ⟨hline, hdoc⟩ := hlines line List.mem_cons_self
    exact ⟨line, textOfLines rest, hline, hdoc, textOfLines_cons line rest⟩

/-- No match begins at a line that is no doc line. -/
theorem not_prefix_of_matches_plain {line : List Char} (hline : '\n' ∉ line) (hdoc : ¬ IsDoc line)
    {run tail : List Char} (h : Matches run) : ¬ run <+: line ++ '\n' :: tail := by
  intro hbegins
  obtain ⟨first, more, hfirst, hdocFirst, rfl⟩ := h.exists_line
  exact hdoc ((first_line_eq hfirst hline hbegins).1 ▸ hdocFirst)

theorem not_prefix_of_matches_rest {rest : List Char} (hrest : '\n' ∉ rest) {run : List Char}
    (h : Matches run) : ¬ run <+: rest := by
  intro hbegins
  obtain ⟨first, more, -, -, rfl⟩ := h.exists_line
  exact hrest (hbegins.subset (by simp))

/-- Behind a run that no run follows there is nothing that a longer match could take. -/
theorem prefix_of_matches {lines : List (List Char)} (hlines : ∀ line ∈ lines, '\n' ∉ line)
    {tail : List Char} (htail : ∀ run, Matches run → ¬ run <+: tail)
    {others : List (List Char)} (hothers : ∀ line ∈ others, '\n' ∉ line ∧ IsDoc line)
    (h : textOfLines others <+: textOfLines lines ++ tail) :
    textOfLines others <+: textOfLines lines := by
  induction others generalizing lines with
  | nil => exact List.nil_prefix
  | cons first more ih =>
    cases lines with
    | nil => exact absurd h (htail _ ⟨first :: more, ⟨by simp, hothers⟩, rfl⟩)
    | cons line rest =>
      rw [textOfLines_cons, textOfLines_cons, List.append_assoc, List.cons_append] at h
      obtain ⟨hfirst, hmore⟩ := List.forall_mem_cons.mp hothers
      obtain ⟨hline, hrest⟩ := List.forall_mem_cons.mp hlines
      -- neither line holds a newline, so the first lines end together
      obtain ⟨rfl, hbegins⟩ := first_line_eq hfirst.1 hline h
      rw [textOfLines_cons, textOfLines_cons]
      exact (List.prefix_append_right_inj _).mpr
        (List.cons_prefix_cons.mpr ⟨rfl, ih hrest hmore hbegins⟩)

section Searching

variable {f : List Char → List Char} {tail out : List Char}

/-- The search passes over a line at whose start there is no match. -/
theorem Substituted.line {line : List Char} (hline : '\n' ∉ line) {atStart : Bool}
    (hnone : atStart = true → ∀ run, Matches run → ¬ run <+: line ++ '\n' :: tail)
    (h : Substituted f true tail out) :
    Substituted f atStart (line ++ '\n' :: tail) (line ++ '\n' :: out) := by
  induction line generalizing atStart with
  | nil => exact .miss hnone h
  | cons c rest ih =>
    have hc : (c == '\n') = false := by
      rw [beq_eq_false_iff_ne]
      exact fun heq => hline (heq ▸ List.mem_cons_self)
    refine .miss hnone (ih (fun hmem => hline (List.mem_cons_of_mem _ hmem)) fun hstart => ?_)
    -- inside a line there is no line start
    rw [hc] at hstart
    exact absurd hstart Bool.false_ne_true

/-- So the rest is left as it is. -/
theorem Substituted.rest {rest : List Char} (hrest : '\n' ∉ rest) (atStart : Bool) :
    Substituted f atStart rest rest := by
  induction rest generalizing atStart with
  | nil => exact .done
  | cons c more ih =>
    exact .miss (fun _ _ hrun => not_prefix_of_matches_rest hrest hrun)
      (ih (fun hmem => hrest (List.mem_cons_of_mem _ hmem)) _)

/-- **A search has one outcome**: at each place there is one longest match, or none. -/
theorem Substituted.unique {atStart : Bool} {text other : List Char}
    (h : Substituted f atStart text out) (h' : Substituted f atStart text other) : out = other := by
  induction h generalizing other with
  | done =>
    generalize hs : ([] : List Char) = s at h'
    cases h' with
    | done => rfl
    | hit hmatch =>
      obtain ⟨line, more, -, -, rfl⟩ := hmatch.exists_line
      exact absurd hs (by simp)
    | miss => exact absurd hs (by simp)
  | @hit run rest out hmatch hlongest _ ih =>
    generalize hs : run ++ rest = s at h'
    cases h' with
    | done =>
      obtain ⟨line, more, -, -, rfl⟩ := hmatch.exists_line
      exact absurd hs (by simp)
    | @hit run' rest' out' hmatch' hlongest' hrest' =>
      -- neither of the two matches is longer than the other
      have hle := hlongest run' hmatch' (hs ▸ List.prefix_append _ _)
      have hge := hlongest' run hmatch (hs ▸ List.prefix_append _ _)
      obtain ⟨rfl, rfl⟩ := List.append_inj hs (Nat.le_antisymm hge hle)
      rw [ih hrest']
    | miss hnone => exact absurd (hs ▸ List.prefix_append _ _) (hnone rfl run hmatch)
  | @miss atStart c rest out hnone _ ih =>
    generalize hs : c :: rest = s at h'
    cases h' with
    | done => exact absurd hs (by simp)
    | @hit run' rest' out' hmatch' =>
      exact absurd (hs ▸ List.prefix_append _ _) (hnone rfl run' hmatch')
    | miss _ hrest' =>
      obtain ⟨rfl, rfl⟩ := List.cons_eq_cons.mp hs
      rw [ih hrest']

/-- What is put in place of a stretch: something else for a run, and nothing else for a line. -/
def Block.exchanged (f : List Char → List Char) : Block → List Char
  | .run lines => f (textOfLines lines)
  | .plain line => line ++ ['\n']

/-- Where a layout starts with no run, there is no match. -/
theorem not_prefix_of_matches {found : List Block} {rest run : List Char}
    (hproper : ∀ b ∈ found, b.IsProper) (hrest : '\n' ∉ rest)
    (hfirst : ∀ b ∈ found.head?, ¬ b.isRun) (h : Matches run) :
    ¬ run <+: found.flatMap Block.source ++ rest := by
  cases found with
  | nil => exact not_prefix_of_matches_rest hrest h
  | cons b more =>
    cases b with
    | run lines => exact absurd rfl (hfirst (.run lines) rfl)
    | plain line =>
      obtain ⟨hline, hdoc⟩ := hproper (.plain line) List.mem_cons_self
      -- the first block is a line that is no doc line
      have hsource : (Block.plain line :: more).flatMap Block.source ++ rest =
          line ++ '\n' :: (more.flatMap Block.source ++ rest) := by
        simp [Block.source, Block.lines, textOfLines]
      rw [hsource]
      exact not_prefix_of_matches_plain hline hdoc h

/-- **The matches are the runs of the layout.** -/
theorem Layout.substituted {text rest : List Char} {found : List Block} (h : Layout text found rest)
    (f : List Char → List Char) :
    Substituted f true text (found.flatMap (Block.exchanged f) ++ rest) := by
  obtain ⟨rfl, hrest, hproper, hmax⟩ := h
  induction found with
  | nil => exact .rest hrest true
  | cons b more ih =>
    obtain ⟨hb, hmore⟩ := List.forall_mem_cons.mp hproper
    obtain ⟨hhead, htail⟩ := List.isChain_cons.mp hmax
    have hbehind := ih hmore htail
    rw [List.flatMap_cons, List.flatMap_cons, List.append_assoc, List.append_assoc]
    cases b with
    | plain line =>
      have hline : (Block.plain line).source = line ++ ['\n'] := by
        simp [Block.source, Block.lines, textOfLines]
      rw [hline, List.append_assoc]
      show Substituted f true (line ++ '\n' :: _) (line ++ ['\n'] ++ _)
      rw [List.append_assoc]
      exact hbehind.line hb.1 fun _ _ hrun => not_prefix_of_matches_plain hb.1 hb.2 hrun
    | run lines =>
      -- a longer match would go on with a line of documentation behind the run
      refine .hit ⟨lines, hb, rfl⟩ ?_ hbehind
      rintro longer ⟨others, ⟨-, hothers⟩, rfl⟩ hbegins
      have hnone : ∀ run, Matches run → ¬ run <+: more.flatMap Block.source ++ rest := fun run =>
        not_prefix_of_matches hmore hrest fun next hnext hrun => hhead next hnext ⟨rfl, hrun⟩
      exact (prefix_of_matches (fun line hl => (hb.2 line hl).1) hnone hothers hbegins).length_le

end Searching

end Packwright.DocComment
