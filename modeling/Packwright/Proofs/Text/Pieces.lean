import Packwright.Proofs.Text.Search
import Packwright.Text.Lines

/-!
# Lines by every line break

The pieces of a text are its lines when every line break of Unicode ends one.

* If the text ends in a line break, so does each piece (`endsLine_of_mem_pieces`).
* Behind a newline the pieces are those of what follows (`pieces_append_newline`): newlines cut a
  text first, and the other line breaks cut its lines.
* What stands behind the first line break is in the pieces behind the first
  (`exists_mem_tail_pieces_iff`).
-/

namespace Packwright.Text

/-! ## Ends of lines -/

/-- A character that breaks lines is not one that does not. -/
theorem ne_of_isLineBreak {b c : Char} (hb : isLineBreak b = true) (hc : ¬ isLineBreak c = true) :
    b ≠ c := by
  rintro rfl
  exact hc hb

/-- A text that ends in a line break. -/
def EndsLine (s : List Char) : Prop :=
  ∃ start b, s = start ++ [b] ∧ isLineBreak b = true

/-- The break at the end is the character itself, or further on. -/
theorem EndsLine.of_cons {c : Char} {rest : List Char} (h : EndsLine (c :: rest)) :
    rest = [] ∧ isLineBreak c = true ∨ EndsLine rest := by
  obtain ⟨start, b, hs, hb⟩ := h
  cases start with
  | nil =>
    obtain ⟨rfl, rfl⟩ := List.cons_eq_cons.mp hs
    exact Or.inl ⟨rfl, hb⟩
  | cons d start =>
    obtain ⟨-, rfl⟩ := List.cons_eq_cons.mp hs
    exact Or.inr ⟨start, b, rfl, hb⟩

/-- A character in front leaves the break at the end. -/
theorem EndsLine.cons {rest : List Char} (h : EndsLine rest) (c : Char) : EndsLine (c :: rest) := by
  obtain ⟨start, b, rfl, hb⟩ := h
  exact ⟨c :: start, b, rfl, hb⟩

/-- A text with a newline behind it ends its line. -/
theorem endsLine_newline (s : List Char) : EndsLine (s ++ ['\n']) :=
  ⟨s, '\n', rfl, by decide⟩

/-- A text that ends in a line break has a first one. -/
theorem EndsLine.exists_first {s : List Char} (h : EndsLine s) :
    ∃ start b rest, s = start ++ b :: rest ∧ (∀ c ∈ start, ¬ isLineBreak c = true) ∧
      isLineBreak b = true := by
  induction s with
  | nil => obtain ⟨start, b, hs, -⟩ := h; exact absurd hs (by simp)
  | cons c s ih =>
    by_cases hc : isLineBreak c = true
    · exact ⟨[], c, s, rfl, by simp, hc⟩
    · obtain ⟨start, b, rest, rfl, hstart, hb⟩ :=
        ih (h.of_cons.resolve_left fun hlast => hc hlast.2)
      exact ⟨c :: start, b, rest, rfl, List.forall_mem_cons.mpr ⟨hc, hstart⟩, hb⟩

/-! ## Cutting -/

/-- A break is the end of its piece, unless it is the first half of a pair. -/
theorem pieces_of_isLineBreak {c : Char} {rest : List Char} (hc : isLineBreak c = true)
    (hpair : ¬ (c = '\r' ∧ rest.head? = some '\n')) : pieces (c :: rest) = [c] :: pieces rest := by
  rw [pieces, if_pos hc]
  rintro tail rfl rfl
  exact hpair ⟨rfl, rfl⟩

/-- Any other character belongs to the first piece of the rest. -/
theorem pieces_of_not_isLineBreak {c : Char} {rest line : List Char} {more : List (List Char)}
    (hc : ¬ isLineBreak c = true) (hrest : pieces rest = line :: more) :
    pieces (c :: rest) = (c :: line) :: more := by
  rw [pieces, if_neg hc, hrest]
  rintro tail rfl -
  exact hc (by decide)

/-- What stands in front of a text goes into its first piece, up to a line break. -/
theorem pieces_append_of_unbroken {s t line : List Char} {more : List (List Char)}
    (hs : ∀ c ∈ s, ¬ isLineBreak c = true) (ht : pieces t = line :: more) :
    pieces (s ++ t) = (s ++ line) :: more := by
  induction s with
  | nil => exact ht
  | cons c s ih =>
    obtain ⟨hc, hrest⟩ := List.forall_mem_cons.mp hs
    exact pieces_of_not_isLineBreak hc (ih hrest)

/-- A line break at the start of a text starts its first piece. -/
theorem exists_pieces_of_isLineBreak {b : Char} (hb : isLineBreak b = true) (s : List Char) :
    ∃ line more, pieces (b :: s) = (b :: line) :: more ∧ s = line ++ more.flatten := by
  by_cases hpair : b = '\r' ∧ s.head? = some '\n'
  · obtain ⟨rfl, hhead⟩ := hpair
    obtain ⟨rest, rfl⟩ := List.head?_eq_some_iff.mp hhead
    exact ⟨['\n'], pieces rest, rfl, by rw [flatten_pieces]; rfl⟩
  · exact ⟨[], pieces s, pieces_of_isLineBreak hb hpair, (flatten_pieces s).symm⟩

/-- A text with a character in it has a first piece. -/
theorem exists_pieces_append (s t : List Char) (c : Char) :
    ∃ line more, pieces (s ++ c :: t) = line :: more := by
  apply List.exists_cons_of_ne_nil
  intro hnil
  have htext := flatten_pieces (s ++ c :: t)
  rw [hnil] at htext
  exact absurd htext (by simp)

/-- **Behind a newline the pieces are those of what follows.** -/
theorem pieces_append_newline (s t : List Char) :
    pieces (s ++ '\n' :: t) = pieces (s ++ ['\n']) ++ pieces t := by
  have hnewline : ∀ u, pieces ('\n' :: u) = ['\n'] :: pieces u := fun u =>
    pieces_of_isLineBreak (by decide) (by simp)
  fun_induction pieces s with
  | case1 => rw [List.nil_append, List.nil_append, hnewline, hnewline]; rfl
  | case2 rest ih =>
    show ['\r', '\n'] :: pieces (rest ++ '\n' :: t) = ['\r', '\n'] :: (pieces (rest ++ ['\n']) ++ _)
    rw [ih]
  | case3 c rest hnone hbreak ih =>
    by_cases hlast : c = '\r' ∧ rest = []
    · -- the newline joins the carriage return in front of it
      obtain ⟨rfl, rfl⟩ := hlast
      rfl
    · have hpair : ∀ u, ¬ (c = '\r' ∧ (rest ++ '\n' :: u).head? = some '\n') := by
        rintro u ⟨rfl, hhead⟩
        cases rest with
        | nil => exact hlast ⟨rfl, rfl⟩
        | cons d rest => exact hnone rest rfl (by rw [Option.some.inj hhead])
      rw [List.cons_append, List.cons_append, pieces_of_isLineBreak hbreak (hpair t),
        pieces_of_isLineBreak hbreak (hpair []), ih, List.cons_append]
  | case4 c rest _ hbreak _ ih | case5 c rest _ hbreak _ _ _ ih =>
    obtain ⟨line, more, hline⟩ := exists_pieces_append rest [] '\n'
    rw [hline, List.cons_append] at ih
    rw [List.cons_append, List.cons_append, pieces_of_not_isLineBreak hbreak ih,
      pieces_of_not_isLineBreak hbreak hline, List.cons_append]

/-- **If a text ends in a line break, so does each of its pieces.** -/
theorem endsLine_of_mem_pieces {s : List Char} (h : EndsLine s) {piece : List Char}
    (hpiece : piece ∈ pieces s) : EndsLine piece := by
  -- only the last piece can lack a line break, and there the text ends in one
  fun_induction pieces s generalizing piece with
  | case1 => exact absurd hpiece (by simp)
  | case2 rest ih =>
    rcases List.mem_cons.mp hpiece with rfl | hmore
    · exact endsLine_newline ['\r']
    · rcases h.of_cons with ⟨hnil, -⟩ | hnewline
      · exact absurd hnil (by simp)
      · rcases hnewline.of_cons with ⟨rfl, -⟩ | hrest
        · exact absurd hmore (by simp [pieces])
        · exact ih hrest hmore
  | case3 c rest hnone hbreak ih =>
    rcases List.mem_cons.mp hpiece with rfl | hmore
    · exact ⟨[], c, rfl, hbreak⟩
    · rcases h.of_cons with ⟨rfl, -⟩ | hrest
      · exact absurd hmore (by simp [pieces])
      · exact ih hrest hmore
  | case4 c rest hnone hbreak hnil ih =>
    have hrest : rest = [] := by rw [← flatten_pieces rest, hnil]; rfl
    subst hrest
    rcases h.of_cons with ⟨-, hc⟩ | ⟨start, b, hs, -⟩
    · exact absurd hc hbreak
    · exact absurd hs (by simp)
  | case5 c rest hnone hbreak line more hline ih =>
    rcases h.of_cons with ⟨-, hc⟩ | hrest
    · exact absurd hc hbreak
    · rw [hline] at ih
      rcases List.mem_cons.mp hpiece with rfl | hmore
      · exact (ih hrest List.mem_cons_self).cons c
      · exact ih hrest (List.mem_cons_of_mem _ hmore)

/-- The last piece of a text ends in the newline that the text ends in. -/
theorem exists_pieces_eq_concat (s : List Char) :
    ∃ front start, pieces (s ++ ['\n']) = front ++ [start ++ ['\n']] := by
  obtain ⟨line, more, hpieces⟩ := exists_pieces_append s [] '\n'
  have hne : pieces (s ++ ['\n']) ≠ [] := by simp [hpieces]
  obtain ⟨front, last, hlast⟩ := (List.eq_nil_or_concat _).resolve_left hne
  rw [List.concat_eq_append] at hlast
  obtain ⟨start, b, rfl, -⟩ : EndsLine last :=
    endsLine_of_mem_pieces (endsLine_newline s) (by rw [hlast]; simp)
  have htext : (front.flatten ++ start) ++ [b] = s ++ ['\n'] := by
    rw [← flatten_pieces (s ++ ['\n']), hlast]
    simp
  obtain rfl : b = '\n' := List.singleton_inj.mp (List.append_inj' htext rfl).2
  exact ⟨front, start, hlast⟩

/-! ## Occurrences in pieces

A text without line breaks that occurs in another occurs in one of its pieces. It is in a piece
behind the first one exactly if there is a line break somewhere in front of it. -/

/-- Whether a text occurs in another behind a line break. -/
def OccursBehindBreak (part s : List Char) : Prop :=
  ∃ before b after, s = before ++ b :: after ∧ isLineBreak b = true ∧ part <:+: after

section Occurrences

variable {part s : List Char}

theorem OccursBehindBreak.infix (h : OccursBehindBreak part s) : part <:+: s := by
  obtain ⟨before, b, after, rfl, -, hoccurs⟩ := h
  exact hoccurs.trans ⟨before ++ [b], [], by simp⟩

/-- One character further: it is the break itself, or stands before it. -/
theorem occursBehindBreak_cons_iff {c : Char} :
    OccursBehindBreak part (c :: s) ↔
      isLineBreak c = true ∧ part <:+: s ∨ OccursBehindBreak part s := by
  constructor
  · rintro ⟨before, b, after, heq, hb, hoccurs⟩
    cases before with
    | nil =>
      obtain ⟨rfl, rfl⟩ := List.cons_eq_cons.mp heq
      exact Or.inl ⟨hb, hoccurs⟩
    | cons d before =>
      obtain ⟨-, rfl⟩ := List.cons_eq_cons.mp heq
      exact Or.inr ⟨before, b, after, rfl, hb, hoccurs⟩
  · rintro (⟨hc, hoccurs⟩ | ⟨before, b, after, rfl, hb, hoccurs⟩)
    · exact ⟨[], c, s, rfl, hc, hoccurs⟩
    · exact ⟨c :: before, b, after, rfl, hb, hoccurs⟩

instance decidableOccursBehindBreak (part : List Char) :
    (s : List Char) → Decidable (OccursBehindBreak part s)
  | [] => .isFalse fun ⟨before, _, _, heq, _⟩ => by cases before <;> exact absurd heq (by simp)
  | _ :: s =>
    have := decidableOccursBehindBreak part s
    decidable_of_iff' _ occursBehindBreak_cons_iff

/-- A character at the end that the part does not have makes no difference. -/
theorem occursBehindBreak_concat_iff {c : Char} (hne : part ≠ []) (hc : c ∉ part) :
    OccursBehindBreak part (s ++ [c]) ↔ OccursBehindBreak part s := by
  induction s with
  | nil =>
    have hnil : ¬ part <:+: [] := by rwa [List.infix_nil]
    have hnone : ¬ OccursBehindBreak part [] := fun h => hnil h.infix
    simp [occursBehindBreak_cons_iff, hnil, hnone]
  | cons d s ih =>
    have hnil : ¬ part <:+: [] := by rwa [List.infix_nil]
    rw [List.cons_append, occursBehindBreak_cons_iff, occursBehindBreak_cons_iff, ih,
      infix_append_cons_iff hc, or_iff_left hnil]

variable (hpart : ∀ c ∈ part, ¬ isLineBreak c = true) (hne : part ≠ [])

include hpart hne

/-- A part without breaks, in texts that each end their line, lies within one of them. -/
theorem infix_flatten_iff {texts : List (List Char)} (h : ∀ text ∈ texts, EndsLine text) :
    part <:+: texts.flatten ↔ ∃ text ∈ texts, part <:+: text := by
  induction texts with
  | nil => simpa using hne
  | cons text more ih =>
    obtain ⟨⟨start, b, rfl, hb⟩, hmore⟩ := List.forall_mem_cons.mp h
    have hout : b ∉ part := fun hmem => hpart b hmem hb
    have hnil : ¬ part <:+: [] := by rwa [List.infix_nil]
    rw [List.flatten_cons, List.append_assoc, List.singleton_append, infix_append_cons_iff hout,
      ih hmore]
    simp only [List.mem_cons, exists_eq_or_imp, infix_append_cons_iff hout, or_iff_left hnil]

/-- So it lies within one piece of a text. -/
theorem infix_iff_exists_piece (h : s = [] ∨ EndsLine s) :
    part <:+: s ↔ ∃ piece ∈ pieces s, part <:+: piece := by
  have hends : ∀ piece ∈ pieces s, EndsLine piece := by
    rcases h with rfl | hs
    · simp [pieces]
    · exact fun piece hpiece => endsLine_of_mem_pieces hs hpiece
  rw [← infix_flatten_iff hpart hne hends, flatten_pieces]

/-- **A text occurs behind the first piece exactly if it occurs behind a line break.** -/
theorem exists_mem_tail_pieces_iff (h : EndsLine s) :
    (∃ piece ∈ (pieces s).tail, part <:+: piece) ↔ OccursBehindBreak part s := by
  have hnil : ¬ part <:+: [] := by rwa [List.infix_nil]
  -- breaks end pieces, so behind the first piece and behind the first break is the same
  fun_induction pieces s with
  | case1 => obtain ⟨start, b, hs, -⟩ := h; exact absurd hs (by simp)
  | case2 rest ih =>
    have hrest : rest = [] ∨ EndsLine rest := by
      rcases h.of_cons with ⟨hnewline, -⟩ | hnewline
      · exact absurd hnewline (by simp)
      · exact hnewline.of_cons.imp_left And.left
    have hout : '\n' ∉ part := fun hmem => hpart _ hmem (by decide)
    have hbehind : part <:+: '\n' :: rest ↔ part <:+: rest := by
      rw [← List.nil_append ('\n' :: rest), infix_append_cons_iff hout, or_iff_right hnil]
    rw [List.tail_cons, ← infix_iff_exists_piece hpart hne hrest, occursBehindBreak_cons_iff,
      occursBehindBreak_cons_iff, hbehind]
    constructor
    · exact fun hoccurs => Or.inl ⟨by decide, hoccurs⟩
    · rintro (⟨-, hoccurs⟩ | ⟨-, hoccurs⟩ | hinner)
      · exact hoccurs
      · exact hoccurs
      · exact hinner.infix
  | case3 c rest hnone hbreak ih =>
    have hrest : rest = [] ∨ EndsLine rest := h.of_cons.imp_left And.left
    rw [List.tail_cons, ← infix_iff_exists_piece hpart hne hrest, occursBehindBreak_cons_iff]
    constructor
    · exact fun hoccurs => Or.inl ⟨hbreak, hoccurs⟩
    · rintro (⟨-, hoccurs⟩ | hinner)
      · exact hoccurs
      · exact hinner.infix
  | case4 c rest hnone hbreak hline ih =>
    have hrest : rest = [] := by rw [← flatten_pieces rest, hline]; rfl
    subst hrest
    rcases h.of_cons with ⟨-, hc⟩ | ⟨start, b, hs, -⟩
    · exact absurd hc hbreak
    · exact absurd hs (by simp)
  | case5 c rest hnone hbreak line more hline ih =>
    rcases h.of_cons with ⟨-, hc⟩ | hrest
    · exact absurd hc hbreak
    · rw [hline] at ih
      rw [occursBehindBreak_cons_iff, or_iff_right fun hc => hbreak hc.1]
      exact ih hrest

end Occurrences

end Packwright.Text
