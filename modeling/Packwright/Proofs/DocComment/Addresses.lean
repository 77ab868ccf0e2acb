import Packwright.Proofs.DocComment.Links
import Packwright.Proofs.Traversal

/-!
# Addresses that are inserted as they are

The address that links are completed by is put into a template, where a backslash may mean something
else. `mangle_inserts_iff` says which addresses are inserted into every text as they are: those
whose backslashes stand for themselves and that have no marker in them.

* If an address is so, nothing happens to it (`insertsLiterally_of_isVerbatim`).
* Of any other address something is lost: `piecesFrom_cases` says that a template with other escapes
  comes out shorter than it is written, and `length_shownPieces` that a marker takes its characters
  along. `probe` is a line in which an address cannot make up for that.
-/

namespace Packwright.DocComment

open Packwright.Text Packwright.Traversal

/-! ## Verbatim addresses -/

/-- What is put around the address has nothing to do with the escapes of a template. -/
theorem isVerbatim_linkTemplate_iff {base : List Char} :
    Template.IsVerbatim (linkTemplate base) ↔ Template.IsVerbatim base := by
  have hlast : Template.IsVerbatim (base ++ ['#']) ↔ Template.IsVerbatim base := by
    unfold Template.IsVerbatim
    rw [List.isChain_append]
    constructor
    · exact fun h => h.1
    · refine fun h => ⟨h, .singleton '#', fun _ _ next hnext _ => ?_⟩
      -- the sign behind the address does not complete an escape
      obtain rfl : '#' = next := Option.some.inj hnext
      decide
  rw [← hlast]
  show Template.IsVerbatim (']' :: '(' :: (base ++ ['#'])) ↔ _
  rw [Template.isVerbatim_cons_iff (fun hc => absurd hc (by decide)),
    Template.isVerbatim_cons_iff (fun hc => absurd hc (by decide))]

/-- A verbatim address is inserted as it is, if it is inserted whole into every line. -/
theorem insertsLiterally_of_isVerbatim {base text : String}
    (hverbatim : Template.IsVerbatim base.toList)
    (h : ∀ found rest, Layout text.toList found rest → ∀ lines, .run lines ∈ found →
      ∀ line ∈ lines, Completed base.toList (line ++ ['\n'])
        (unmarkedLine (linkTemplate base.toList) line)) :
    InsertsLiterally base text := by
  obtain ⟨found, rest, hlayout⟩ := exists_layout text.toList
  have hparse := Template.parse_of_isVerbatim (isVerbatim_linkTemplate_iff.mpr hverbatim)
  refine ⟨found, rest, shownLine (linkTemplate base.toList), hlayout, ?_,
    fun lines hlines line hline =>
      ⟨_, h found rest hlayout lines hlines line hline, exchanged_shownLine _ line⟩⟩
  -- the body goes line by line, because a link never crosses a newline
  have hbody : body (linkTemplate base.toList) =
      fun lines => lines.flatMap (shownLine (linkTemplate base.toList)) := funext (body_eq _)
  rw [mangle, mangleChars_of_parse hlayout hparse, Template.expand_chars, hbody]
  rfl

/-! ## Lengths

Closing marks that come about may make a text longer, so texts are compared by the lengths that they
have when closing marks have been defused. -/

/-- The number of characters of a text whose closing marks have been defused. -/
def defusedLength (s : List Char) : Nat :=
  (replaceAll closing defused s).length

section Lengths

variable {s t : List Char} {c : Char}

theorem defusedLength_nil : defusedLength [] = 0 := by
  rw [defusedLength, replaceAll_nil, List.length_nil]

/-- One character more, and another one if it opens a mark that closes comments. -/
theorem defusedLength_cons (c : Char) (s : List Char) :
    defusedLength (c :: s) =
      defusedLength s + 1 + if c = '*' ∧ s.head? = some '/' then 1 else 0 := by
  -- where no mark starts the character is kept, and counts once
  have hmiss : ∀ {d s}, ¬ closing <+: d :: s → defusedLength (d :: s) = defusedLength s + 1 := by
    intro d s hnone
    have hcons := (exchanged_iff closing_ne_nil).mp
      (.miss hnone (exchanged_replaceAll closing_ne_nil defused s))
    rw [defusedLength, ← hcons, List.length_cons, defusedLength]
  by_cases hmark : c = '*' ∧ s.head? = some '/'
  · obtain ⟨rfl, hhead⟩ := hmark
    obtain ⟨rest, rfl⟩ := List.head?_eq_some_iff.mp hhead
    have hhit := (exchanged_iff closing_ne_nil).mp
      (.hit (exchanged_replaceAll closing_ne_nil defused rest))
    have hslash : ¬ closing <+: '/' :: rest := fun hprefix =>
      absurd (List.cons_prefix_cons.mp hprefix).1 (by decide)
    -- the mark of two characters is written with three
    have hwhole : defusedLength ('*' :: '/' :: rest) = defusedLength rest + 3 := by
      show (replaceAll closing defused (closing ++ rest)).length = _
      rw [← hhit, List.length_append, defusedLength, Nat.add_comm]
      rfl
    rw [hwhole, hmiss hslash, if_pos ⟨rfl, rfl⟩]
  · rw [if_neg hmark, hmiss, Nat.add_zero]
    rintro ⟨rest, hrest⟩
    obtain ⟨rfl, rfl⟩ := List.cons_eq_cons.mp hrest
    exact hmark ⟨rfl, rfl⟩

/-- Where two texts meet, one closing mark may come about. -/
theorem defusedLength_append (s t : List Char) :
    defusedLength (s ++ t) = defusedLength s + defusedLength t +
      if s.getLast? = some '*' ∧ t.head? = some '/' then 1 else 0 := by
  induction s with
  | nil => simp [defusedLength_nil]
  | cons c s ih =>
    rw [List.cons_append, defusedLength_cons, defusedLength_cons, ih]
    cases s with
    | nil => simp [defusedLength_nil]; omega
    | cons d s =>
      have hhead : (d :: s ++ t).head? = (d :: s).head? := rfl
      rw [hhead, List.getLast?_cons_cons]
      omega

theorem length_le_defusedLength (s : List Char) : s.length ≤ defusedLength s := by
  induction s with
  | nil => exact Nat.zero_le _
  | cons c s ih => rw [defusedLength_cons, List.length_cons]; omega

/-- Dropping a blank does not lengthen. -/
theorem defusedLength_dropBlank_le (s : List Char) :
    defusedLength (dropBlank s) ≤ defusedLength s := by
  unfold dropBlank
  split
  · rw [defusedLength_cons]; omega
  · exact le_rfl

/-- The first marker is what is dropped. -/
theorem exists_dropMarker_eq {s : List Char} (h : marker <:+: s) :
    ∃ front text, s = front ++ (marker ++ text) ∧ dropMarker s = front ++ dropBlank text := by
  induction s with
  | nil => exact absurd h (by decide)
  | cons c rest ih =>
    by_cases hmarker : marker <+: c :: rest
    · obtain ⟨text, htext⟩ := hmarker
      exact ⟨[], text, htext.symm, by rw [← htext, dropMarker_marker]; rfl⟩
    · obtain ⟨front, text, rfl, hdrop⟩ := ih ((List.infix_cons_iff.mp h).resolve_left hmarker)
      exact ⟨c :: front, text, rfl, by rw [dropMarker_cons hmarker, hdrop]; rfl⟩

/-- A marker that goes takes three characters along. If a closing mark comes about in its place,
there was one with the marker's first slash. -/
theorem defusedLength_dropMarker {s : List Char} (h : marker <:+: s) :
    defusedLength (dropMarker s) + 3 ≤ defusedLength s := by
  obtain ⟨front, text, rfl, hdrop⟩ := exists_dropMarker_eq h
  have hmarked : defusedLength (marker ++ text) = 3 + defusedLength text := by
    rw [defusedLength_append, if_neg (by simp [marker])]
    rfl
  have hhead : (marker ++ text).head? = some '/' := rfl
  have hblank := defusedLength_dropBlank_le text
  rw [hdrop, defusedLength_append, defusedLength_append, hmarked, hhead]
  -- a star before the marker makes a closing mark with its first slash, or with what comes after
  by_cases hstar : front.getLast? = some '*'
  · simp only [hstar, true_and, if_true]
    split <;> omega
  · simp only [hstar, false_and, if_false]
    omega

/-- Pieces lose three characters for each marker that one of them has. -/
theorem length_shownPieces {texts : List (List Char)} (h : ∀ text ∈ texts, EndsLine text) :
    (texts.map shownPiece).flatten.length + 3 * texts.countP (marker <:+: ·) ≤
      defusedLength texts.flatten := by
  induction texts with
  | nil => exact Nat.zero_le _
  | cons text more ih =>
    obtain ⟨⟨start, b, rfl, hb⟩, hmore⟩ := List.forall_mem_cons.mp h
    have hrest := ih hmore
    -- a piece with a marker loses three characters, and defusing adds no more than it counts
    have hpiece : (shownPiece (start ++ [b])).length +
        3 * (if marker <:+: start ++ [b] then 1 else 0) ≤ defusedLength (start ++ [b]) := by
      show defusedLength (dropMarker (start ++ [b])) + _ ≤ _
      split
      · rename_i hmarker; have := defusedLength_dropMarker hmarker; omega
      · rename_i hmarker; rw [dropMarker_of_unmarked hmarker]; omega
    have happend := defusedLength_append (start ++ [b]) more.flatten
    rw [List.map_cons, List.flatten_cons, List.flatten_cons, List.length_append, List.countP_cons]
    simp only [decide_eq_true_eq]
    omega

end Lengths

/-! ## Other addresses -/

/-- Whether a text comes out shorter than another one, whatever stands in front of both. -/
def Shorter (s t : List Char) : Prop :=
  ∀ front, defusedLength (front ++ s) < defusedLength (front ++ t)

theorem Shorter.append_left {s t : List Char} (h : Shorter s t) (front : List Char) :
    Shorter (front ++ s) (front ++ t) := by
  intro before
  rw [← List.append_assoc, ← List.append_assoc]
  exact h (before ++ front)

/-- Every token of a template is written. -/
theorem length_le_flatMap_chars (ts : List Template.Token) :
    ts.length ≤ (ts.flatMap Template.Token.chars).length := by
  induction ts with
  | nil => exact Nat.zero_le _
  | cons t more ih =>
    have hpos : 1 ≤ t.chars.length := by cases t <;> simp [Template.Token.chars]
    rw [List.flatMap_cons, List.length_append, List.length_cons]
    omega

/-- **An escape that is not kept comes out shorter than it is written**, even if it stands for a
half of a closing mark. -/
theorem shorter_of_escape {c : Char} {ts rest : List Template.Token} {found : List Template.Piece}
    (h : Template.escape c ts = .ok (found, rest)) (hc : ¬ Template.IsKept c) {s t : List Char}
    (ht : t = rest.flatMap Template.Token.chars) (hle : defusedLength s ≤ defusedLength t) :
    Shorter (Template.expand linkStart found ++ s)
      ('\\' :: c :: ts.flatMap Template.Token.chars) := by
  intro front
  obtain ⟨taken, rfl, hfound⟩ := Template.escape_cases h hc
  have hwritten : defusedLength front + (2 + taken.length) + defusedLength t ≤
      defusedLength (front ++
        '\\' :: c :: (taken ++ rest).flatMap Template.Token.chars) := by
    have htaken := length_le_flatMap_chars taken
    have hlength := length_le_defusedLength ('\\' :: c :: taken.flatMap Template.Token.chars)
    have hinner :=
      defusedLength_append ('\\' :: c :: taken.flatMap Template.Token.chars) t
    have houter := defusedLength_append front
      (('\\' :: c :: taken.flatMap Template.Token.chars) ++ t)
    rw [List.flatMap_append, ← ht]
    simp only [List.length_cons, List.cons_append] at hlength hinner houter
    omega
  -- one character or what a link starts with: either is shorter than the escape
  rcases hfound with ⟨d, rfl, hd⟩ | ⟨rfl, hlen⟩
  · show defusedLength (front ++ d :: s) < _
    have hinner := defusedLength_cons d s
    have houter := defusedLength_append front (d :: s)
    by_cases hmark : d = '*' ∨ d = '/'
    · have := hd hmark
      split at hinner <;> split at houter <;> omega
    · rw [not_or] at hmark
      rw [if_neg fun hstar => hmark.1 hstar.1] at hinner
      rw [if_neg fun hslash => hmark.2 (Option.some.inj hslash.2)] at houter
      omega
  · show defusedLength (front ++ (linkStart ++ s)) < _
    have hinner := defusedLength_append linkStart s
    have houter := defusedLength_append front (linkStart ++ s)
    rw [if_neg (by simp [linkStart])] at hinner
    rw [if_neg (by simp [linkStart])] at houter
    have hlink : defusedLength linkStart = 3 := rfl
    omega

/-- **A template that is no verbatim text comes out shorter than it is written.** -/
theorem piecesFrom_cases {fuel : Nat} {ts : List Template.Token} {found : List Template.Piece}
    (hfuel : ts.length ≤ fuel) (h : Template.piecesFrom fuel ts = .ok found) :
    (∀ c, .escaped c ∈ ts → Template.IsKept c) ∧
        Template.expand linkStart found = ts.flatMap Template.Token.chars ∨
      Shorter (Template.expand linkStart found) (ts.flatMap Template.Token.chars) := by
  induction fuel generalizing ts found with
  | zero =>
    obtain rfl := List.length_eq_zero_iff.mp (Nat.le_zero.mp hfuel)
    obtain rfl := Except.ok.inj h
    exact .inl ⟨by simp, rfl⟩
  | succ fuel ih =>
    cases ts with
    | nil =>
      obtain rfl := Except.ok.inj h
      exact .inl ⟨by simp, rfl⟩
    | cons t rest =>
      have hrest : rest.length ≤ fuel := Nat.le_of_succ_le_succ hfuel
      cases t with
      | plain c =>
        rw [Template.piecesFrom] at h
        obtain ⟨more, hmore, heq⟩ := bind_eq_ok_iff.mp h
        obtain rfl := Except.ok.inj heq
        rcases ih hrest hmore with ⟨hkept, hsame⟩ | hshorter
        · exact .inl ⟨by simpa using hkept, congrArg (c :: ·) hsame⟩
        · exact .inr (hshorter.append_left [c])
      | escaped c =>
        rw [Template.piecesFrom] at h
        obtain ⟨⟨first, after⟩, hfirst, heq⟩ := bind_eq_ok_iff.mp h
        obtain ⟨more, hmore, heq⟩ := bind_eq_ok_iff.mp heq
        obtain rfl := Except.ok.inj heq
        rw [Template.expand_append, List.flatMap_cons]
        by_cases hc : Template.IsKept c
        · rw [Template.escape_of_isKept hc] at hfirst
          obtain ⟨rfl, rfl⟩ := Prod.mk.inj (Except.ok.inj hfirst)
          rcases ih hrest hmore with ⟨hkept, hsame⟩ | hshorter
          · refine .inl ⟨by simpa using ⟨hc, hkept⟩, ?_⟩
            exact congrArg (fun s => '\\' :: c :: s) hsame
          · exact .inr (hshorter.append_left ['\\', c])
        · have hafter : after.length ≤ fuel := by
            obtain ⟨taken, rfl, -⟩ := Template.escape_cases hfirst hc
            rw [List.length_append] at hrest
            omega
          -- whatever becomes of the rest, the escape has made it shorter
          refine .inr (shorter_of_escape hfirst hc rfl ?_)
          rcases ih hafter hmore with ⟨-, hsame⟩ | hshorter
          · rw [hsame]
          · exact (hshorter []).le

/-- A template that parses either has no escape, and is expanded to itself, or comes out shorter. -/
theorem parse_cases {t : List Char} {found : List Template.Piece}
    (h : Template.parse t = .ok found) :
    Template.IsVerbatim t ∧ Template.expand linkStart found = t ∨
      Shorter (Template.expand linkStart found) t := by
  have hcases := piecesFrom_cases le_rfl (Template.parse_eq_ok_iff.mp h)
  rwa [Template.flatMap_chars_tokens, ← Template.isVerbatim_iff] at hcases

/-! ## The addresses that are inserted as they are -/

/-- A line with a link behind a line break, in a piece without a marker of its own. -/
def probe : List Char :=
  marker ++ '\x0b' :: linkStart

/-- The probe holds one link, and nothing else is exchanged in it. -/
theorem linked_probe (link : List Char) :
    replaceAll linkStart link (probe ++ ['\n']) = marker ++ '\x0b' :: (link ++ ['\n']) := by
  have hlink := linked_linkStart link []
  rw [replaceAll_nil, List.append_nil, List.append_nil] at hlink
  rw [← linked_newline, probe, linked_marker, ← List.nil_append ('\x0b' :: linkStart),
    replaceAll_append linkStart_ne_nil (by decide), replaceAll_nil, hlink]
  simp

/-- How long the shown probe can be: each marker in the link costs its three characters. -/
theorem length_shownLine_probe (link : List Char) :
    (shownLine link probe).length + 3 * (pieces (link ++ ['\n'])).countP (marker <:+: ·) ≤
      defusedLength link + 2 := by
  have hlength := length_shownPieces fun piece hpiece =>
    endsLine_of_mem_pieces (endsLine_linked link probe) hpiece
  -- the marker and the break in front are a piece of their own, and this marker goes as well
  have hpieces : pieces (marker ++ '\x0b' :: (link ++ ['\n'])) =
      (marker ++ ['\x0b']) :: pieces (link ++ ['\n']) :=
    pieces_append_of_unbroken not_isLineBreak_marker
      (pieces_of_isLineBreak (by decide) fun hpair => absurd hpair.1 (by decide))
  have hdefused : defusedLength (marker ++ '\x0b' :: (link ++ ['\n'])) =
      defusedLength link + 5 := by
    rw [defusedLength_append, if_neg (by simp), defusedLength_cons, if_neg (by simp),
      defusedLength_append, if_neg (by simp)]
    have hmarker : defusedLength marker = 3 := rfl
    have hnewline : defusedLength ['\n'] = 1 := rfl
    omega
  rw [flatten_pieces, linked_probe, hdefused, hpieces, List.countP_cons, if_pos (by decide)]
    at hlength
  rw [shownLine, linked_newline, linked_probe, hpieces]
  omega

/-- The probe is answered with the whole link in it, and with two characters at least beside it. -/
theorem defusedLength_probe {base completed : List Char}
    (h : Completed base (probe ++ ['\n']) completed) :
    defusedLength (linkTemplate base) + 2 ≤ defusedLength completed := by
  rw [probe, List.append_assoc] at h
  -- whatever becomes of the marker, the break and the link behind it are kept
  obtain ⟨front, behind, rfl, -, hbehind⟩ := h.of_append (by decide)
  obtain ⟨last, rfl, hlast⟩ := hbehind.of_linkStart
  obtain ⟨blank, more, rfl, -, -⟩ := Completed.of_append (s := []) (by decide) hlast
  have hfront := defusedLength_append front
    ('\x0b' :: (linkTemplate base ++ (blank ++ '\n' :: more)))
  have hbreak := defusedLength_cons '\x0b' (linkTemplate base ++ (blank ++ '\n' :: more))
  have hlink := defusedLength_append (linkTemplate base) (blank ++ '\n' :: more)
  have hblank := defusedLength_append blank ('\n' :: more)
  have hnewline := defusedLength_cons '\n' more
  omega

/-- What stands in a block determines what was written in it. -/
theorem written_run_injective {body other : List (List Char) → List Char} {lines : List (List Char)}
    (h : (Block.run lines).written body = (Block.run lines).written other) :
    body lines = other lines := by
  unfold Block.written at h
  exact List.append_cancel_left (List.append_cancel_right (List.append_cancel_right h))

/-- If the address is inserted into the probe as it is, it is verbatim and has no marker. -/
theorem isVerbatim_of_insertsLiterally {base : String}
    (h : InsertsLiterally base (String.ofList (probe ++ ['\n']))) :
    Template.IsVerbatim base.toList ∧ ¬ marker <:+: base.toList := by
  obtain ⟨found, rest, shown, hlayout, hmangle, hlines⟩ := h
  obtain rfl : found = [.run [probe]] := hlayout.eq_blocks.1.trans (by decide)
  obtain rfl : rest = [] := hlayout.eq_blocks.2.trans (by decide)
  obtain ⟨completed, hcompleted, hshown⟩ := hlines _ List.mem_cons_self _ List.mem_cons_self
  cases hparse : Template.parse (linkTemplate base.toList) with
  | error e =>
    rw [mangle, mangleChars_of_parse_error hlayout List.mem_cons_self hparse] at hmangle
    simp [Except.map] at hmangle
  | ok template =>
    have hcases := parse_cases hparse
    rw [mangle, mangleChars_of_parse hlayout hparse] at hmangle
    generalize Template.expand linkStart template = link at hmangle hcases
    have hwritten := String.ofList_injective (Except.ok.inj hmangle)
    simp only [List.flatMap_singleton, List.append_nil] at hwritten
    have hbody := written_run_injective hwritten
    rw [body_eq, List.flatMap_singleton, List.flatMap_singleton] at hbody
    rw [← hbody, exchanged_iff closing_ne_nil] at hshown
    have hlong := defusedLength_probe hcompleted
    have hshort := length_shownLine_probe link
    rw [hshown, ← defusedLength] at hshort
    -- the two lengths leave no room for a marker, nor for anything shorter
    rcases hcases with ⟨hverbatim, rfl⟩ | hshorter
    · refine ⟨isVerbatim_linkTemplate_iff.mp hverbatim, fun hmarker => ?_⟩
      have hnone : (pieces (linkTemplate base.toList ++ ['\n'])).countP (marker <:+: ·) = 0 := by
        omega
      have hinside : marker <:+: linkTemplate base.toList ++ ['\n'] :=
        hmarker.trans ⟨"](".toList, ['#', '\n'], by simp [linkTemplate]⟩
      rw [infix_iff_exists_piece not_isLineBreak_marker (by decide) (.inr (endsLine_newline _))] at hinside
      obtain ⟨piece, hpiece, hoccurs⟩ := hinside
      exact absurd hoccurs (by simpa using List.countP_eq_zero.mp hnone piece hpiece)
    · have : defusedLength link < defusedLength (linkTemplate base.toList) := hshorter []
      omega

/-- **Which addresses are inserted as they are.** An address is inserted as it is into every text
exactly if each of its backslashes stands for itself and it has no marker. One with a marker is
never refused either; and if it is on one line, it is inserted as it is into every text where no
link stands behind a line break other than the newline. -/
theorem mangle_inserts_iff (base : String) :
    ((∀ text, InsertsLiterally base text) ↔
      Template.IsVerbatim base.toList ∧ ¬ marker <:+: base.toList) ∧
    (Template.IsVerbatim base.toList →
      (∀ text, ∃ out, mangle base text = .ok out) ∧
      ((∀ c ∈ base.toList, ¬ isLineBreak c = true) →
        ∀ text, (∀ found rest, Layout text.toList found rest → ∀ lines, .run lines ∈ found →
          ∀ line ∈ lines, ¬ OccursBehindBreak linkStart line) → InsertsLiterally base text)) := by
  refine ⟨⟨fun h => isVerbatim_of_insertsLiterally (h _), fun h text => ?_⟩,
    fun hverbatim => ⟨fun text => ?_, fun hbase text hlinks => ?_⟩⟩
  · exact insertsLiterally_of_isVerbatim h.1 fun _ _ _ _ _ line _ => completed_unmarkedLine h.2 line
  · obtain ⟨found, rest, hlayout⟩ := exists_layout text.toList
    have hparse := Template.parse_of_isVerbatim (isVerbatim_linkTemplate_iff.mpr hverbatim)
    exact ⟨_, by rw [mangle, mangleChars_of_parse hlayout hparse]; rfl⟩
  · refine insertsLiterally_of_isVerbatim hverbatim
      fun found rest hlayout lines hlines line hline => ?_
    exact completed_unmarkedLine_of_unbroken hbase ((hlayout.proper _ hlines).2 line hline).2
      (hlinks found rest hlayout lines hlines line hline)

/-- An address with a backslash in front of a dash, and one with a marker, on a line that ends in a
carriage return. -/
theorem mangle_inserts_iff_fileAddress :
    (∀ text, InsertsLiterally "d\\-/" text) ∧
      InsertsLiterally "file:///d/" "/// [a](#b) /// c\r\n" ∧
      mangle "file:///d/" "/// [a](#b) /// c\r\n" =
        .ok "/**\n[a](file:///d/#b) /// c\r\n*/\n" := by
  refine ⟨(mangle_inserts_iff "d\\-/").1.mpr (by decide),
    ((mangle_inserts_iff "file:///d/").2 (by decide)).2 (by simp [isLineBreak]) _ ?_, by decide⟩
  intro found rest hlayout lines hlines line hline
  obtain rfl : found = [.run ["/// [a](#b) /// c\r".toList]] :=
    hlayout.eq_blocks.1.trans (by decide)
  obtain rfl : lines = ["/// [a](#b) /// c\r".toList] := by simpa using hlines
  obtain rfl := List.mem_singleton.mp hline
  decide

/-- An address is refused although the text has no link, another one gets a newline, and a third one
loses a marker. -/
theorem exists_refused_address :
    mangle "C:\\docs" "/// x\n" = .error (.malformed (.badEscape 'd') 4 "](C:\\docs#") ∧
      ¬ InsertsLiterally "C:\\docs" "/// x\n" ∧
      mangle "C:\\new" "/// [a](#b)\n" = .ok "/**\n[a](C:\new#b)\n*/\n" ∧
      mangle "file:///d/" "/// a\x0b](#y)\n" = .ok "/**\na\x0b](file:d/#y)\n*/\n" := by
  have hmangle : mangle "C:\\docs" "/// x\n" =
      .error (.malformed (.badEscape 'd') 4 "](C:\\docs#") := by decide
  refine ⟨hmangle, ?_, by decide, by decide⟩
  rintro ⟨found, rest, shown, -, hok, -⟩
  rw [hmangle] at hok
  exact absurd hok (by simp)

end Packwright.DocComment
