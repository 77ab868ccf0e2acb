import Packwright.Proofs.DocComment.ShownLines

/-!
# Links completed by the address

A link to a place on the same page is to get the address of the page in front, character for
character.

* `Completed` says what may become of a line whose links are completed so. Of the markers nothing is
  said but that they are the line's own: none goes from an address.
* `unmarkedLine` is what a block has for a line before closing marks are defused, when links are
  exchanged for the address as it is. It has the links completed if there is no marker in the
  address (`completed_unmarkedLine`), or if the markers in it stand behind the line's own
  (`completed_unmarkedLine_of_unbroken`).
-/

namespace Packwright.DocComment

open Packwright.Text

/-! ## Lines with their links completed -/

/-- What may become of a text whose links are completed by an address: `](` and the address and `#`
in place of each `](#`, and some of the text's own markers gone, each with one blank behind it if
there is one. -/
inductive Completed (base : List Char) : List Char → List Char → Prop
  | done : Completed base [] []
  | link {rest out : List Char} (hrest : Completed base rest out) :
      Completed base (linkStart ++ rest) (linkTemplate base ++ out)
  | unmarked {text out : List Char} (htext : Completed base (dropBlank text) out) :
      Completed base (marker ++ text) out
  | kept {c : Char} {rest out : List Char} (hnone : ¬ linkStart <+: c :: rest)
      (hrest : Completed base rest out) : Completed base (c :: rest) (c :: out)

/-- Whether a text is mangled with the address inserted as it is: every line of every run is shown
with its links completed, and with closing marks defused after that. -/
def InsertsLiterally (base text : String) : Prop :=
  ∃ found rest shown, Layout text.toList found rest ∧
    mangle base text = .ok (String.ofList
      (found.flatMap (Block.written fun lines => lines.flatMap shown) ++ rest)) ∧
    ∀ lines, .run lines ∈ found → ∀ line ∈ lines, ∃ completed,
      Completed base.toList (line ++ ['\n']) completed ∧
      Exchanged closing defused completed (shown line)

theorem not_isLineBreak_linkStart : ∀ c ∈ linkStart, ¬ isLineBreak c = true := by
  simp [linkStart, isLineBreak]

section Completing

variable {base s t out out' : List Char} {c : Char}

/-- At any character a link is completed, a marker dropped, or the character kept. -/
theorem completed_cons (h : Completed base (c :: s) out) :
    (∃ rest o, c :: s = linkStart ++ rest ∧ out = linkTemplate base ++ o ∧ Completed base rest o) ∨
      (∃ text, c :: s = marker ++ text ∧ Completed base (dropBlank text) out) ∨
      ∃ o, ¬ linkStart <+: c :: s ∧ out = c :: o ∧ Completed base s o := by
  generalize hs : c :: s = text at h
  cases h with
  | done => simp at hs
  | link hrest => exact .inl ⟨_, _, rfl, rfl, hrest⟩
  | unmarked htext => exact .inr (.inl ⟨_, rfl, htext⟩)
  | kept hnone hrest =>
    obtain ⟨rfl, rfl⟩ := List.cons_eq_cons.mp hs
    exact .inr (.inr ⟨_, hnone, rfl, hrest⟩)

/-- At the start of a link it can only be completed. -/
theorem Completed.of_linkStart (h : Completed base (linkStart ++ s) out) :
    ∃ o, out = linkTemplate base ++ o ∧ Completed base s o := by
  rcases completed_cons h with ⟨rest, o, heq, rfl, ho⟩ | ⟨text, heq, -⟩ | ⟨o, hnone, -, -⟩
  · obtain rfl : s = rest := (List.append_right_inj linkStart).mp heq
    exact ⟨o, rfl, ho⟩
  · exact absurd (List.cons_eq_cons.mp heq).1 (by decide)
  · exact absurd (List.prefix_append linkStart s) hnone

/-- A line break parts a text into two that are completed on their own. -/
theorem Completed.of_append {b : Char} (hb : isLineBreak b = true)
    (h : Completed base (s ++ b :: t) out) :
    ∃ o o', out = o ++ b :: o' ∧ Completed base s o ∧ Completed base t o' := by
  -- neither a link nor a marker has a line break in it, so each is on one side
  have hlink : b ∉ linkStart := fun hmem => not_isLineBreak_linkStart b hmem hb
  have hmarker : b ∉ marker := by simpa [marker] using ne_of_isLineBreak hb (by decide)
  generalize hs : s ++ b :: t = text at h
  induction h generalizing s with
  | done => simp at hs
  | link _ ih =>
    obtain ⟨s, rfl, heq⟩ := exists_of_append_eq hlink hs.symm
    obtain ⟨o, o', rfl, ho, ho'⟩ := ih heq.symm
    exact ⟨linkTemplate base ++ o, o', by simp, .link ho, ho'⟩
  | unmarked _ ih =>
    obtain ⟨s, rfl, rfl⟩ := exists_of_append_eq hmarker hs.symm
    obtain ⟨o, o', rfl, ho, ho'⟩ :=
      ih (dropBlank_append (ne_of_isLineBreak hb (by decide)) s t).symm
    exact ⟨o, o', rfl, .unmarked ho, ho'⟩
  | @kept c rest out hnone hrest ih =>
    cases s with
    | nil =>
      obtain ⟨rfl, rfl⟩ := List.cons_eq_cons.mp hs
      exact ⟨[], out, rfl, .done, hrest⟩
    | cons d s =>
      obtain ⟨rfl, rfl⟩ := List.cons_eq_cons.mp hs
      obtain ⟨o, o', rfl, ho, ho'⟩ := ih rfl
      refine ⟨d :: o, o', rfl, .kept (fun hprefix => hnone ?_) ho, ho'⟩
      exact hprefix.trans (List.prefix_append (d :: s) _)

/-- Two texts that are completed on their own are completed with a line break between them. -/
theorem Completed.append (h : Completed base s out) {b : Char} (hb : isLineBreak b = true)
    (h' : Completed base t out') : Completed base (s ++ b :: t) (out ++ b :: out') := by
  have hlink : b ∉ linkStart := fun hmem => not_isLineBreak_linkStart b hmem hb
  induction h with
  | done =>
    refine .kept (fun hprefix => linkStart_ne_nil ?_) h'
    rw [← List.nil_append (b :: t), prefix_append_cons_iff hlink] at hprefix
    exact List.prefix_nil.mp hprefix
  | link _ ih =>
    rw [List.append_assoc, List.append_assoc]
    exact .link ih
  | unmarked _ ih =>
    rw [← dropBlank_append (ne_of_isLineBreak hb (by decide))] at ih
    rw [List.append_assoc]
    exact .unmarked ih
  | @kept c rest out hnone _ ih =>
    -- a link that starts on the left would have to reach across the break
    refine .kept (fun hprefix => hnone ?_) ih
    have hprefix : linkStart <+: c :: rest ++ b :: t := hprefix
    exact (prefix_append_cons_iff hlink).mp hprefix

/-- An indent is kept. -/
theorem Completed.indent (h : Completed base s out) {indent : List Char}
    (hindent : ∀ c ∈ indent, c = ' ' ∨ c = '\t') :
    Completed base (indent ++ s) (indent ++ out) := by
  induction indent with
  | nil => exact h
  | cons c indent ih =>
    obtain ⟨hc, hrest⟩ := List.forall_mem_cons.mp hindent
    refine .kept (fun hprefix => ?_) (ih hrest)
    obtain rfl : ']' = c := (List.cons_prefix_cons.mp hprefix).1
    exact absurd hc (by decide)

/-- Links that are exchanged as they are found are completed. -/
theorem completed_of_exchanged (h : Exchanged linkStart (linkTemplate base) s out) :
    Completed base s out := by
  induction h with
  | done => exact .done
  | hit _ ih => exact .link ih
  | miss hnone _ ih => exact .kept hnone ih

end Completing

/-! ## Texts that have lost some markers -/

/-- What may become of a text when some of its markers go, each with one blank behind it if there is
one. -/
inductive Unmarked : List Char → List Char → Prop
  | done : Unmarked [] []
  | unmarked {text out : List Char} (htext : Unmarked (dropBlank text) out) :
      Unmarked (marker ++ text) out
  | kept {c : Char} {rest out : List Char} (hrest : Unmarked rest out) :
      Unmarked (c :: rest) (c :: out)

section Unmarking

variable {s t out out' : List Char} {c : Char}

/-- At any character a marker is dropped or the character kept. -/
theorem unmarked_cons (h : Unmarked (c :: s) out) :
    (∃ text, c :: s = marker ++ text ∧ Unmarked (dropBlank text) out) ∨
      ∃ o, out = c :: o ∧ Unmarked s o := by
  generalize hs : c :: s = text at h
  cases h with
  | done => simp at hs
  | unmarked htext => exact .inl ⟨_, rfl, htext⟩
  | kept hrest =>
    obtain ⟨rfl, rfl⟩ := List.cons_eq_cons.mp hs
    exact .inr ⟨_, rfl, hrest⟩

theorem Unmarked.refl (s : List Char) : Unmarked s s := by
  induction s with
  | nil => exact .done
  | cons c s ih => exact .kept ih

/-- And so is dropping the first marker. -/
theorem unmarked_dropMarker (s : List Char) : Unmarked s (dropMarker s) := by
  induction s with
  | nil => exact .done
  | cons c s ih =>
    by_cases hmarker : marker <+: c :: s
    · obtain ⟨text, htext⟩ := hmarker
      rw [← htext, dropMarker_marker]
      exact .unmarked (.refl _)
    · rw [dropMarker_cons hmarker]
      exact .kept ih

/-- Two texts with a character between them that is no blank may be unmarked apart. -/
theorem Unmarked.append (h : Unmarked s out) {b : Char} (hblank : b ≠ ' ')
    (h' : Unmarked t out') : Unmarked (s ++ b :: t) (out ++ b :: out') := by
  induction h with
  | done => exact .kept h'
  | unmarked _ ih =>
    rw [← dropBlank_append hblank] at ih
    rw [List.append_assoc]
    exact .unmarked ih
  | kept _ ih => exact .kept ih

/-- A front may be left alone. -/
theorem Unmarked.append_left (h : Unmarked t out) (s : List Char) :
    Unmarked (s ++ t) (s ++ out) := by
  induction s with
  | nil => exact h
  | cons c s ih => exact .kept ih

/-- **Markers go from each line of a text by itself.** -/
theorem unmarked_flatten {texts : List (List Char)} (h : ∀ text ∈ texts, EndsLine text) :
    Unmarked texts.flatten (texts.map dropMarker).flatten := by
  induction texts with
  | nil => exact .done
  | cons text more ih =>
    obtain ⟨⟨start, b, rfl, hb⟩, hmore⟩ := List.forall_mem_cons.mp h
    have hslash : b ≠ '/' := ne_of_isLineBreak hb (by decide)
    have hblank : b ≠ ' ' := ne_of_isLineBreak hb (by decide)
    rw [List.map_cons, List.flatten_cons, List.flatten_cons, dropMarker_concat hslash hblank,
      List.append_assoc, List.append_assoc]
    exact (unmarked_dropMarker start).append hblank (ih hmore)

/-- A text without markers stays, up to a character that no marker holds. -/
theorem Unmarked.of_append (hs : ¬ marker <:+: s) (hc : c ≠ '/')
    (h : Unmarked (s ++ c :: t) out) : ∃ o, out = s ++ c :: o ∧ Unmarked t o := by
  have hout : c ∉ marker := by simpa [marker] using hc
  induction s generalizing out with
  | nil =>
    rcases unmarked_cons h with ⟨text, htext, -⟩ | hkept
    · exact absurd (List.cons_eq_cons.mp htext).1 hc
    · exact hkept
  | cons d s ih =>
    rw [List.infix_cons_iff, not_or] at hs
    rcases unmarked_cons h with ⟨text, htext, -⟩ | ⟨o, rfl, ho⟩
    · have hprefix : marker <+: d :: s ++ c :: t := ⟨text, htext.symm⟩
      -- the marker would lie within the front
      exact absurd ((prefix_append_cons_iff hout).mp hprefix) hs.1
    · obtain ⟨o', rfl, ho'⟩ := ih hs.2 ho
      exact ⟨o', rfl, ho'⟩

end Unmarking

/-! ## Where the address stays whole -/

/-- Where no link starts the character is kept. -/
theorem linked_cons {base : List Char} {c : Char} {s : List Char} (h : ¬ linkStart <+: c :: s) :
    replaceAll linkStart (linkTemplate base) (c :: s) =
      c :: replaceAll linkStart (linkTemplate base) s :=
  ((exchanged_iff linkStart_ne_nil).mp (.miss h (exchanged_replaceAll linkStart_ne_nil _ s))).symm

theorem linked_linkStart (link s : List Char) :
    replaceAll linkStart link (linkStart ++ s) = link ++ replaceAll linkStart link s :=
  ((exchanged_iff linkStart_ne_nil).mp (.hit (exchanged_replaceAll linkStart_ne_nil _ s))).symm

/-- A character in front that is no bracket was there before, since a completed link begins with
one. -/
theorem exists_of_linked_eq_cons {base s t : List Char} {c : Char} (hc : c ≠ ']')
    (h : replaceAll linkStart (linkTemplate base) s = c :: t) :
    ∃ rest, s = c :: rest ∧ t = replaceAll linkStart (linkTemplate base) rest := by
  have hhead := (exchanged_replaceAll linkStart_ne_nil (linkTemplate base) s).head?_eq
    (c := ']') rfl rfl
  rw [h] at hhead
  obtain ⟨rest, rfl⟩ : ∃ rest, s = c :: rest := List.head?_eq_some_iff.mp hhead.symm
  have hnone : ¬ linkStart <+: c :: rest := fun hprefix =>
    hc (List.cons_prefix_cons.mp hprefix).1.symm
  rw [linked_cons hnone] at h
  exact ⟨rest, rfl, (List.cons_eq_cons.mp h).2.symm⟩

/-- The completed link, with the sign at its end apart. -/
theorem linkTemplate_append (base s : List Char) :
    linkTemplate base ++ s = (']' :: '(' :: base) ++ '#' :: s := by
  simp [linkTemplate]

/-- What is left after dropping a blank is the end of the text. -/
theorem dropBlank_suffix (s : List Char) : dropBlank s <:+ s := by
  unfold dropBlank
  split
  · exact List.suffix_cons _ _
  · exact List.suffix_rfl

/-- **If no marker goes from an address, links are completed by it.** That is so if there is no
marker in it, and also if there is no link. -/
theorem completed_of_unmarked {base s out : List Char}
    (hbase : linkStart <:+: s → ¬ marker <:+: base)
    (h : Unmarked (replaceAll linkStart (linkTemplate base) s) out) : Completed base s out := by
  induction hn : s.length using Nat.strong_induction_on generalizing s out with
  | _ n ih =>
  have hrest : ∀ {rest o}, rest <:+ s → rest.length < s.length →
      Unmarked (replaceAll linkStart (linkTemplate base) rest) o → Completed base rest o :=
    fun hsuffix hlt ho => ih _ (hn ▸ hlt) (fun hlink => hbase (hlink.trans hsuffix.isInfix)) ho rfl
  cases s with
  | nil =>
    rw [replaceAll_nil] at h
    generalize hs : ([] : List Char) = linked at h
    cases h with
    | done => exact .done
    | unmarked => simp [DocComment.marker] at hs
    | kept => simp at hs
  | cons c s =>
    by_cases hlink : linkStart <+: c :: s
    · -- nothing goes from the address
      have hnone : ¬ marker <:+: ']' :: '(' :: base := by
        have := hbase hlink.isInfix
        simp [List.infix_cons_iff, marker, List.cons_prefix_cons] at this ⊢
        exact this
      obtain ⟨rest, heq⟩ := hlink
      rw [← heq, linked_linkStart, linkTemplate_append] at h
      obtain ⟨o, rfl, ho⟩ := h.of_append hnone (by decide)
      have hlt : rest.length < (c :: s).length := by simp [← heq, linkStart]; omega
      rw [← linkTemplate_append, ← heq]
      exact .link (hrest ⟨linkStart, heq⟩ hlt ho)
    · rw [linked_cons hlink] at h
      rcases unmarked_cons h with ⟨text, htext, ho⟩ | ⟨o, rfl, ho⟩
      · -- the marker is one of the text itself
        obtain ⟨rfl, hsecond⟩ := List.cons_eq_cons.mp htext
        have hsecond : replaceAll linkStart (linkTemplate base) s = '/' :: '/' :: text := hsecond
        obtain ⟨s, rfl, hthird⟩ := exists_of_linked_eq_cons (by decide) hsecond
        obtain ⟨s, rfl, rfl⟩ := exists_of_linked_eq_cons (by decide) hthird.symm
        rw [dropBlank_linked] at ho
        have hblank := dropBlank_suffix s
        have hlt : (dropBlank s).length < ('/' :: '/' :: '/' :: s).length := by
          have := hblank.length_le
          simp only [List.length_cons]
          omega
        exact .unmarked (hrest (hblank.trans ⟨marker, rfl⟩) hlt ho)
      · exact .kept hlink (hrest (List.suffix_cons c s) (by simp) ho)

/-- The newline may be put behind before or after completing the links. -/
theorem linked_newline (link line : List Char) :
    replaceAll linkStart link line ++ ['\n'] = replaceAll linkStart link (line ++ ['\n']) := by
  rw [replaceAll_append linkStart_ne_nil newline_not_mem_linkStart, replaceAll_nil]

theorem endsLine_linked (link line : List Char) :
    EndsLine (replaceAll linkStart link (line ++ ['\n'])) :=
  linked_newline link line ▸ endsLine_newline _

/-- What a block has for a line and its newline before closing marks are defused: the line with its
links completed, and each of its pieces without its first marker. -/
def unmarkedLine (link line : List Char) : List Char :=
  ((pieces (replaceAll linkStart link (line ++ ['\n']))).map dropMarker).flatten

/-- A shown line is the unmarked one with the closing marks defused. -/
theorem exchanged_shownLine (link line : List Char) :
    Exchanged closing defused (unmarkedLine link line) (shownLine link line) := by
  have hends : ∀ text ∈ (pieces (replaceAll linkStart link (line ++ ['\n']))).map dropMarker,
      EndsLine text := by
    intro text htext
    obtain ⟨piece, hpiece, rfl⟩ := List.mem_map.mp htext
    obtain ⟨start, b, rfl, hb⟩ := endsLine_of_mem_pieces (endsLine_linked link line) hpiece
    have hslash : b ≠ '/' := ne_of_isLineBreak hb (by decide)
    have hblank : b ≠ ' ' := ne_of_isLineBreak hb (by decide)
    exact ⟨dropMarker start, b, dropMarker_concat hslash hblank start, hb⟩
  rw [exchanged_iff closing_ne_nil, unmarkedLine, replaceAll_closing_flatten hends, List.map_map,
    shownLine, linked_newline]
  rfl

/-- **An address without a marker is inserted into every line.** -/
theorem completed_unmarkedLine {base : List Char} (h : ¬ marker <:+: base) (line : List Char) :
    Completed base (line ++ ['\n']) (unmarkedLine (linkTemplate base) line) := by
  have hpieces := unmarked_flatten fun piece hpiece =>
    endsLine_of_mem_pieces (endsLine_linked (linkTemplate base) line) hpiece
  rw [flatten_pieces] at hpieces
  exact completed_of_unmarked (fun _ => h) hpieces

/-- From the first piece only its first marker goes. -/
theorem exists_flatten_dropMarker {s t : List Char} {b : Char}
    (hs : ∀ c ∈ s, ¬ isLineBreak c = true) (hmarker : marker <:+: s) (hb : isLineBreak b = true)
    (hends : EndsLine (s ++ b :: t)) :
    ∃ out, ((pieces (s ++ b :: t)).map dropMarker).flatten = dropMarker s ++ b :: out ∧
      Unmarked t out := by
  obtain ⟨line, more, hfirst, rfl⟩ := exists_pieces_of_isLineBreak hb t
  have hpieces := pieces_append_of_unbroken hs hfirst
  have hmore : ∀ piece ∈ more, EndsLine piece := fun piece hpiece =>
    endsLine_of_mem_pieces hends (by rw [hpieces]; exact List.mem_cons_of_mem _ hpiece)
  refine ⟨line ++ (more.map dropMarker).flatten, ?_, (unmarked_flatten hmore).append_left line⟩
  rw [hpieces, List.map_cons, List.flatten_cons,
    dropMarker_append (ne_of_isLineBreak hb (by decide)) (ne_of_isLineBreak hb (by decide)) hmarker,
    List.append_assoc, List.cons_append]

/-- What stands in front of the first line break of a documentation line and its newline is the
start of that line, with the marker. -/
theorem IsDoc.exists_start {line start rest : List Char} {b : Char} (h : IsDoc line)
    (hb : isLineBreak b = true) (hline : line ++ ['\n'] = start ++ b :: rest) :
    ∃ indent text, (∀ c ∈ indent, c = ' ' ∨ c = '\t') ∧ start = indent ++ marker ++ text := by
  obtain ⟨indent, text, hindent, rfl⟩ := h
  have hout : b ∉ indent ++ marker := fun hmem => by
    rcases List.mem_append.mp hmem with hblank | hslash
    · rcases hindent b hblank with rfl | rfl <;> exact absurd hb (by decide)
    · have hslash : b = '/' := by simpa [marker] using hslash
      exact absurd (hslash ▸ hb) (by decide)
  have hprefix : indent ++ marker <+: start ++ b :: rest := hline ▸ ⟨text ++ ['\n'], by simp⟩
  obtain ⟨text, rfl⟩ := (prefix_append_cons_iff hout).mp hprefix
  exact ⟨indent, text, hindent, rfl⟩

/-- **An address on one line is inserted into every line that has no link behind another line
break.** The marker that goes from the first piece is the one that the line starts with, and the
other pieces have no link. -/
theorem completed_unmarkedLine_of_unbroken {base line : List Char}
    (hbase : ∀ c ∈ base, ¬ isLineBreak c = true) (hdoc : IsDoc line)
    (hlinks : ¬ OccursBehindBreak linkStart line) :
    Completed base (line ++ ['\n']) (unmarkedLine (linkTemplate base) line) := by
  obtain ⟨start, b, rest, hline, hstart, hb⟩ := (endsLine_newline line).exists_first
  have hrest : ¬ linkStart <:+: rest := fun hoccurs => hlinks <|
    (occursBehindBreak_concat_iff linkStart_ne_nil newline_not_mem_linkStart).mp
      ⟨start, b, rest, hline, hb, hoccurs⟩
  obtain ⟨indent, text, hindent, rfl⟩ := hdoc.exists_start hb hline
  have hlink : b ∉ linkStart := fun hmem => not_isLineBreak_linkStart b hmem hb
  have hlinked : replaceAll linkStart (linkTemplate base) (indent ++ marker ++ text) =
      indent ++ marker ++ replaceAll linkStart (linkTemplate base) text := by
    rw [List.append_assoc, linked_eq hindent, linked_marker, ← List.append_assoc]
  -- completing links moves no line break into the first piece
  have hunbroken : ∀ c ∈ replaceAll linkStart (linkTemplate base) (indent ++ marker ++ text),
      ¬ isLineBreak c = true := by
    intro c hc
    rcases mem_of_mem_replaceAll hc with hmem | hmem
    · exact hstart c hmem
    · simp only [linkTemplate, List.mem_append, List.mem_singleton] at hmem
      rcases hmem with (hopen | hmem) | rfl
      · exact not_isLineBreak_linkStart c (List.mem_append_left ['#'] hopen)
      · exact hbase c hmem
      · decide
  have hends := endsLine_linked (linkTemplate base) line
  rw [unmarkedLine]
  rw [hline, replaceAll_append linkStart_ne_nil hlink] at hends ⊢
  obtain ⟨out, hout, hunmarked⟩ :=
    exists_flatten_dropMarker hunbroken (hlinked ▸ ⟨indent, _, rfl⟩) hb hends
  rw [hout, hlinked, dropMarker_indent hindent]
  refine Completed.append ?_ hb
    (completed_of_unmarked (fun hoccurs => absurd hoccurs hrest) hunmarked)
  rw [List.append_assoc, dropBlank_linked]
  exact (completed_of_exchanged (exchanged_replaceAll linkStart_ne_nil _ _)).unmarked.indent hindent

end Packwright.DocComment
