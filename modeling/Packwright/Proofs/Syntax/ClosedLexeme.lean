import Packwright.Proofs.Syntax.OpenLexeme

/-!
# A comment behind a closed lexeme

Texts, patterns, the chunks of templates and comments themselves end with a mark of their own. Once
that mark is reached, nothing that follows can change where the lexeme ends.
-/

namespace Packwright.Syntax.Lexeme

/-- A stretch that ends in `a` with a character of `a` behind it ends there whatever follows `a`. -/
theorem takeWhile_append_of_lt {p : Char → Bool} {a b : List Char} (s : List Char)
    (h : ((a ++ b).takeWhile p).length < a.length) :
    (a ++ s).takeWhile p = (a ++ b).takeWhile p := by
  have hpart : (a.takeWhile p).length ≠ a.length := by
    intro hall
    rcases length_takeWhile_append p a b with heq | ⟨-, hlt⟩
    · omega
    · omega
  rw [List.takeWhile_append, List.takeWhile_append, if_neg hpart, if_neg hpart]

/-- A character of `a` is where it is, whatever stands behind `a`. -/
theorem head?_drop_append_of_lt {a : List Char} {n : Nat} (s b : List Char) (h : n < a.length) :
    ((a ++ s).drop n).head? = ((a ++ b).drop n).head? := by
  rw [List.drop_append_of_le_length (Nat.le_of_lt h), List.drop_append_of_le_length (Nat.le_of_lt h)]
  cases hrest : a.drop n with
  | nil => exact absurd (List.drop_eq_nil_iff.mp hrest) (Nat.not_le.mpr h)
  | cons c rest => rfl

/-! ## Lines -/

/-- A marked line that ends in `a` ends there whatever follows `a`. -/
theorem markedLineLength_comment {openings : List String} {ends : Char → Bool} {a b : List Char}
    (t : List Char) (hne : a ≠ [])
    (hopen : ∀ m ∈ openings, '/' ∉ m.toList.drop 1 ∧ m.toList ≠ [] ∧ m.toList.all (!ends ·) = true)
    (h : 0 < markedLineLength openings ends (a ++ b) →
      markedLineLength openings ends (a ++ b) < a.length) :
    markedLineLength openings ends (a ++ '/' :: '*' :: t) =
      markedLineLength openings ends (a ++ b) := by
  -- the line is at least as long as the mark that it starts with
  have hlong : ∀ m ∈ openings, m.toList <+: a ++ b →
      0 < m.toList.length ∧ m.toList.length ≤ ((a ++ b).takeWhile (!ends ·)).length := by
    rintro m hm ⟨rest, hrest⟩
    obtain ⟨-, hpos, hall⟩ := hopen m hm
    rw [← hrest, List.takeWhile_append_of_pos (List.all_eq_true.mp hall), List.length_append]
    exact ⟨List.length_pos_iff.mpr hpos, Nat.le_add_right _ _⟩
  have hlt : (openings.any fun m => m.toList.isPrefixOf (a ++ b)) = true →
      ((a ++ b).takeWhile (!ends ·)).length < a.length := by
    intro hany
    obtain ⟨m, hm, hpre⟩ := List.any_eq_true.mp hany
    have hpos := hlong m hm (List.isPrefixOf_iff_prefix.mp hpre)
    rw [markedLineLength, if_pos hany] at h
    exact h (by omega)
  have hany : (openings.any fun m => m.toList.isPrefixOf (a ++ '/' :: '*' :: t)) =
      openings.any fun m => m.toList.isPrefixOf (a ++ b) := by
    rw [Bool.eq_iff_iff, List.any_eq_true, List.any_eq_true]
    refine exists_congr fun m => and_congr_right fun hm => ?_
    rw [List.isPrefixOf_iff_prefix, List.isPrefixOf_iff_prefix]
    refine prefix_comment_iff hne (hopen m hm).1 fun hpre => ?_
    have hline := hlt (List.any_eq_true.mpr ⟨m, hm, List.isPrefixOf_iff_prefix.mpr hpre⟩)
    have hpos := hlong m hm hpre
    omega
  unfold markedLineLength
  rw [hany]
  split
  · rename_i hprefix
    rw [takeWhile_append_of_lt _ (hlt hprefix)]
  · rfl

/-! ## Texts -/

/-- **An escape that ends in `a`** is as long with a comment behind `a`. An escape of two characters
for a line break is the case where the next character could matter. -/
theorem escapeLength_comment {a b : List Char} (t : List Char) (hne : a ≠ [])
    (h : escapeLength (a ++ b) ≤ a.length) :
    escapeLength (a ++ '/' :: '*' :: t) = escapeLength (a ++ b) := by
  obtain ⟨c, rest, rfl⟩ := List.exists_cons_of_ne_nil hne
  simp only [List.cons_append, List.length_cons] at h ⊢
  rw [escapeLength] at h ⊢
  rw [escapeLength]
  by_cases hr : c = '\r'
  · rw [if_pos hr] at h ⊢
    rw [if_pos hr]
    -- `\r` and `\n` are one escape, and a comment does not start with `\n`
    cases rest with
    | nil =>
      rw [if_neg (by simp), if_neg fun hline => ?_]
      rw [if_pos hline] at h
      simp at h
    | cons d rest => rfl
  rw [if_neg hr] at h ⊢
  rw [if_neg hr]
  by_cases hx : c = 'x'
  · rw [if_pos hx] at h ⊢
    rw [if_pos hx, length_takeWhile_comment isHex_slash]
    -- the digits end inside of `a`, or fill it, and then the escape is too short in both
    rcases length_takeWhile_append isHex rest b with heq | ⟨hall, hlt⟩
    · rw [heq]
    · split at h
      · rw [if_pos (by omega), if_pos (by omega)]
      · rw [if_neg (by omega), if_neg (by omega)]
  rw [if_neg hx] at h ⊢
  rw [if_neg hx]
  by_cases hu : c = 'u'
  · rw [if_pos hu] at h ⊢
    rw [if_pos hu]
    exact numberEscapeLength_comment (c :: rest) b t h
  · rw [if_neg hu, if_neg hu]

/-- How many characters an escape takes up, or that it is malformed, is settled in `a` as soon as
the escape ends there. -/
theorem escaped?_comment {c : Char} {a b : List Char} (t : List Char) {n : Nat}
    (h : escaped? c (a ++ b) = some n) (hle : n ≤ a.length) :
    escaped? c (a ++ '/' :: '*' :: t) = some n := by
  unfold escaped? at h ⊢
  by_cases hc : c = '\\'
  · rw [if_pos hc] at h ⊢
    by_cases hpos : 0 < escapeLength (a ++ b)
    · rw [if_pos hpos, Option.some.injEq] at h
      have hne : a ≠ [] := List.length_pos_iff.mp (by omega)
      rw [escapeLength_comment (b := b) t hne (by omega), if_pos hpos, h]
    · rw [if_neg hpos] at h
      exact absurd h (by simp)
  · rw [if_neg hc] at h ⊢
    exact h

/-- What is skipped of a text lies before its closing quote. -/
theorem skip_lt_stringTailLength? {quote : Char} {skip n : Nat} {s : List Char}
    (h : stringTailLength? quote skip s = some n) : skip < n := by
  induction s generalizing skip n with
  | nil => exact absurd h (by simp [stringTailLength?])
  | cons c s ih =>
    cases skip with
    | succ skip =>
      rw [stringTailLength?] at h
      obtain ⟨m, hm, rfl⟩ := Option.map_eq_some_iff.mp h
      exact Nat.succ_lt_succ (ih hm)
    | zero =>
      rw [stringTailLength?] at h
      split at h
      · exact Option.some.inj h ▸ Nat.zero_lt_one
      · split at h
        · exact absurd h (by simp)
        · obtain ⟨k, -, hk⟩ := Option.bind_eq_some_iff.mp h
          obtain ⟨m, -, rfl⟩ := Option.map_eq_some_iff.mp hk
          exact Nat.succ_pos m

/-- The rest of a text that is closed in `a` is closed at the same quote with a comment behind `a`.
Induction on `a`; characters of an escape are skipped one by one. -/
theorem stringTailLength?_comment {quote : Char} {a b : List Char} (t : List Char) {skip n : Nat}
    (h : stringTailLength? quote skip (a ++ b) = some n) (hle : n ≤ a.length) :
    stringTailLength? quote skip (a ++ '/' :: '*' :: t) = some n := by
  induction a generalizing skip n with
  | nil =>
    have hlt := skip_lt_stringTailLength? h
    rw [List.length_nil] at hle
    omega
  | cons c a ih =>
    rw [List.cons_append] at h ⊢
    rw [List.length_cons] at hle
    cases skip with
    | succ skip =>
      rw [stringTailLength?] at h ⊢
      obtain ⟨m, hm, rfl⟩ := Option.map_eq_some_iff.mp h
      rw [ih hm (by omega)]
      rfl
    | zero =>
      rw [stringTailLength?] at h ⊢
      by_cases hq : c = quote
      · rw [if_pos hq] at h ⊢
        exact h
      rw [if_neg hq] at h ⊢
      by_cases hline : c = '\n' ∨ c = '\r'
      · rw [if_pos hline] at h
        exact absurd h (by simp)
      rw [if_neg hline] at h ⊢
      obtain ⟨k, hk, hrest⟩ := Option.bind_eq_some_iff.mp h
      obtain ⟨m, hm, rfl⟩ := Option.map_eq_some_iff.mp hrest
      -- an escape lies before the quote, so it lies in `a`
      have hlt := skip_lt_stringTailLength? hm
      rw [escaped?_comment t hk (by omega), Option.bind_some, ih hm (by omega)]
      rfl

/-- A text starts with one of the two quotes. -/
theorem stringLength?_of_not_quote {c : Char} (hd : c ≠ '"') (hs : c ≠ '\'') (s : List Char) :
    stringLength? (c :: s) = none := by
  rw [stringLength?]
  · exact fun rest h => hd (List.cons.inj h).1
  · exact fun rest h => hs (List.cons.inj h).1

/-- **A text that is closed in `a`** is as long with a comment behind `a`, whichever quote it has. -/
theorem stringLength?_comment {a b : List Char} (t : List Char) {n : Nat}
    (h : stringLength? (a ++ b) = some n) (hne : a ≠ []) (hle : n ≤ a.length) :
    stringLength? (a ++ '/' :: '*' :: t) = some n := by
  obtain ⟨c, rest, rfl⟩ := List.exists_cons_of_ne_nil hne
  rw [List.cons_append] at h ⊢
  rw [List.length_cons] at hle
  by_cases hd : c = '"'
  · subst hd
    rw [stringLength?] at h ⊢
    obtain ⟨m, hm, rfl⟩ := Option.map_eq_some_iff.mp h
    rw [stringTailLength?_comment t hm (by omega)]
    rfl
  by_cases hs : c = '\''
  · subst hs
    rw [stringLength?] at h ⊢
    obtain ⟨m, hm, rfl⟩ := Option.map_eq_some_iff.mp h
    rw [stringTailLength?_comment t hm (by omega)]
    rfl
  · rw [stringLength?_of_not_quote hd hs] at h
    exact absurd h (by simp)

/-! ## Patterns -/

/-- The rest of a pattern has its closing slash at least. -/
theorem pos_of_patternTailLength? {inBrackets escaped : Bool} {s : List Char} {n : Nat}
    (h : patternTailLength? inBrackets escaped s = some n) : 0 < n := by
  cases s with
  | nil => exact absurd h (by simp [patternTailLength?])
  | cons c s =>
    rw [patternTailLength?] at h
    split at h
    · exact absurd h (by simp)
    · split at h
      · exact Option.some.inj h ▸ Nat.zero_lt_one
      · obtain ⟨m, -, rfl⟩ := Option.map_eq_some_iff.mp h
        exact Nat.succ_pos m

/-- The rest of a pattern that is closed in `a` does not depend on what stands behind `a` at all:
only its own slash can close it. -/
theorem patternTailLength?_append {a b : List Char} (s : List Char) {inBrackets escaped : Bool}
    {n : Nat} (h : patternTailLength? inBrackets escaped (a ++ b) = some n) (hle : n ≤ a.length) :
    patternTailLength? inBrackets escaped (a ++ s) = some n := by
  induction a generalizing inBrackets escaped n with
  | nil =>
    have hpos := pos_of_patternTailLength? h
    rw [List.length_nil] at hle
    omega
  | cons c a ih =>
    rw [List.cons_append, patternTailLength?] at h ⊢
    rw [List.length_cons] at hle
    by_cases hline : c = '\n'
    · rw [if_pos hline] at h
      exact absurd h (by simp)
    rw [if_neg hline] at h ⊢
    by_cases hclose : (c == '/' && !inBrackets && !escaped) = true
    · rw [if_pos hclose] at h ⊢
      exact h
    rw [if_neg hclose] at h ⊢
    obtain ⟨m, hm, rfl⟩ := Option.map_eq_some_iff.mp h
    rw [ih hm (by omega)]
    rfl

/-- **A pattern that is closed in `a` with its flags** is as long with a comment behind `a`. The
flags are an open lexeme, so they need the comment to start with no letter. -/
theorem regexLength?_comment {a b : List Char} (t : List Char) {n : Nat}
    (h : regexLength? (a ++ b) = some n) (hne : a ≠ []) (hle : n ≤ a.length) :
    regexLength? (a ++ '/' :: '*' :: t) = some n := by
  obtain ⟨c, rest, rfl⟩ := List.exists_cons_of_ne_nil hne
  rw [List.cons_append, regexLength?] at h ⊢
  rw [List.length_cons] at hle
  by_cases hopen : c = '/' ∧ (rest ++ b).head? ≠ some '/'
  · rw [if_pos hopen] at h
    obtain ⟨m, hm, rfl⟩ := Option.map_eq_some_iff.mp h
    have hpos := pos_of_patternTailLength? hm
    have hlen : m ≤ rest.length := by omega
    have hhead := head?_drop_append_of_lt (n := 0) ('/' :: '*' :: t) b (by omega : 0 < rest.length)
    rw [List.drop_zero, List.drop_zero] at hhead
    rw [hhead, if_pos hopen, patternTailLength?_append _ hm hlen, Option.map_some]
    rw [List.drop_append_of_le_length hlen] at hle ⊢
    rw [List.drop_append_of_le_length hlen, length_takeWhile_comment_of_le (by decide)]
    rw [List.length_drop]
    omega
  · rw [if_neg hopen] at h
    exact absurd h (by simp)

/-! ## Templates -/

/-- Two characters decide whether a template ends or a substitution starts. -/
theorem endsChunk_append {a : List Char} (s b : List Char) (h : 2 ≤ a.length) :
    endsChunk (a ++ s) = endsChunk (a ++ b) := by
  match a, h with
  | c :: d :: a, _ => rfl

/-- What is skipped of a template lies before its end. -/
theorem skip_le_chunkLength? {skip n : Nat} {s : List Char} (h : chunkLength? skip s = some n) :
    skip ≤ n := by
  induction s generalizing skip n with
  | nil => exact absurd h (by simp [chunkLength?])
  | cons c s ih =>
    cases skip with
    | zero => exact Nat.zero_le n
    | succ skip =>
      rw [chunkLength?] at h
      obtain ⟨m, hm, rfl⟩ := Option.map_eq_some_iff.mp h
      exact Nat.succ_le_succ (ih hm)

/-- A chunk ends with one mark or with two, so it is taken to reach two characters further. -/
theorem chunkLength?_comment {a b : List Char} (t : List Char) {skip n : Nat}
    (h : chunkLength? skip (a ++ b) = some n) (hle : n + 2 ≤ a.length) :
    chunkLength? skip (a ++ '/' :: '*' :: t) = some n := by
  induction a generalizing skip n with
  | nil => exact absurd hle (by simp)
  | cons c a ih =>
    rw [List.length_cons] at hle
    cases skip with
    | succ skip =>
      rw [List.cons_append, chunkLength?] at h ⊢
      obtain ⟨m, hm, rfl⟩ := Option.map_eq_some_iff.mp h
      rw [ih hm (by omega)]
      rfl
    | zero =>
      have hends := endsChunk_append (a := c :: a) ('/' :: '*' :: t) b (by rw [List.length_cons]; omega)
      rw [List.cons_append, List.cons_append] at hends
      rw [List.cons_append, chunkLength?] at h ⊢
      rw [hends]
      by_cases hend : endsChunk (c :: (a ++ b)) = true
      · rw [if_pos hend] at h ⊢
        exact h
      rw [if_neg hend] at h ⊢
      obtain ⟨k, hk, hrest⟩ := Option.bind_eq_some_iff.mp h
      obtain ⟨m, hm, rfl⟩ := Option.map_eq_some_iff.mp hrest
      have hskip := skip_le_chunkLength? hm
      rw [escaped?_comment t hk (by omega), Option.bind_some, ih hm (by omega)]
      rfl

/-! ## Markup -/

/-- The text of an attribute that is closed in `a` is as long with a comment behind `a`. -/
theorem attributeTextLength?_comment {a b : List Char} (t : List Char) {n : Nat}
    (h : attributeTextLength? (a ++ b) = some n) (hne : a ≠ []) (hle : n ≤ a.length) :
    attributeTextLength? (a ++ '/' :: '*' :: t) = some n := by
  obtain ⟨quote, rest, rfl⟩ := List.exists_cons_of_ne_nil hne
  rw [List.cons_append, attributeTextLength?] at h ⊢
  split at h
  · rename_i hquote
    rw [Option.some.injEq] at h
    rw [List.length_cons] at hle
    have hlt : ((rest ++ b).takeWhile (· != quote)).length < rest.length := by omega
    rw [takeWhile_append_of_lt _ hlt, head?_drop_append_of_lt _ b hlt, if_pos hquote, h]
  · exact absurd h (by simp)

/-- The blanks behind the mark of a tag are the same if the character behind them is in `a`. -/
theorem tagBlanks_append {a b : List Char} (s : List Char)
    (h : (tagBlanks (a ++ b)).length + 2 ≤ a.length) : tagBlanks (a ++ s) = tagBlanks (a ++ b) := by
  unfold tagBlanks at h ⊢
  cases a with
  | nil => exact absurd h (by simp)
  | cons c a =>
    simp only [List.cons_append, List.drop_succ_cons, List.drop_zero, List.length_cons] at h ⊢
    exact takeWhile_append_of_lt s (by omega)

/-- Whether a tag closes an element is settled by the character behind its blanks. -/
theorem isClosingTag_append {a b : List Char} (s : List Char)
    (h : (tagBlanks (a ++ b)).length + 2 ≤ a.length) :
    isClosingTag (a ++ s) = isClosingTag (a ++ b) := by
  unfold isClosingTag
  rw [tagBlanks_append s h, head?_drop_append_of_lt s b (by omega)]

/-! ## Blanks and comments -/

/-- The rest of a block comment has its two closing characters at least. -/
theorem two_le_blockLength? {s : List Char} {n : Nat} (h : blockLength? s = some n) : 2 ≤ n := by
  induction s generalizing n with
  | nil => exact absurd h (by simp [blockLength?])
  | cons c s ih =>
    rw [blockLength?] at h
    split at h
    · exact Nat.le_of_eq (Option.some.inj h)
    · obtain ⟨m, hm, rfl⟩ := Option.map_eq_some_iff.mp h
      have := ih hm
      omega

/-- A block comment that is closed in `a` is closed there whatever stands behind `a`. -/
theorem blockLength?_append {a b : List Char} (s : List Char) {n : Nat}
    (h : blockLength? (a ++ b) = some n) (hle : n ≤ a.length) : blockLength? (a ++ s) = some n := by
  induction a generalizing n with
  | nil =>
    have := two_le_blockLength? h
    rw [List.length_nil] at hle
    omega
  | cons c a ih =>
    have htwo := two_le_blockLength? h
    rw [List.length_cons] at hle
    have hhead := head?_drop_append_of_lt (n := 0) s b (by omega : 0 < a.length)
    rw [List.drop_zero, List.drop_zero] at hhead
    rw [List.cons_append, blockLength?] at h ⊢
    rw [hhead]
    split at h
    · rename_i hclose
      rw [if_pos hclose]
      exact h
    · rename_i hopen
      obtain ⟨m, hm, rfl⟩ := Option.map_eq_some_iff.mp h
      rw [if_neg hopen, ih hm (by omega)]
      rfl

/-- A slash is looked at together with the character behind it, which may make a comment of it. -/
theorem two_le_blankReach (d : Char) (s : List Char) : 2 ≤ blankReach ('/' :: d :: s) := by
  unfold blankReach
  split
  · omega
  · split
    · cases hblock : blockLength? (('/' :: d :: s).drop 2) with
      | none => simp
      | some n => simp
    · exact Nat.le_of_eq (if_pos rfl).symm

/-- A comment starts with a slash, so what else stands first decides by itself. -/
theorem blankLength_cons {c : Char} (s : List Char) (hslash : c ≠ '/') :
    blankLength (c :: s) = if isBlank c then 1 else 0 := by
  have htake : ∀ x : Char, (c :: s).take 2 ≠ ['/', x] := by
    intro x h
    cases s with
    | nil => simp at h
    | cons y s =>
      rw [List.take_succ_cons] at h
      exact hslash (List.cons.inj h).1
  rw [blankLength, if_neg (htake '/'), if_neg (htake '*')]
  rfl

/-- **A comment does not change the blank before it.** -/
theorem blankLength_comment {a b : List Char} (t : List Char) (hne : a ≠ []) (hb : b ≠ [])
    (h : blankReach (a ++ b) ≤ a.length) :
    blankLength (a ++ '/' :: '*' :: t) = blankLength (a ++ b) := by
  match a, hne, h with
  | [c], _, h =>
    obtain ⟨d, rest, rfl⟩ := List.exists_cons_of_ne_nil hb
    -- a slash would be looked at with the character behind it
    have hc : c ≠ '/' := by
      rintro rfl
      have := two_le_blankReach d rest
      rw [List.singleton_append, List.length_singleton] at h
      omega
    rw [List.singleton_append, List.singleton_append, blankLength_cons _ hc, blankLength_cons _ hc]
  | c :: d :: a, _, h =>
    have htake : ∀ s, (c :: d :: a ++ s).take 2 = [c, d] := fun s => rfl
    have hdrop : ∀ s, (c :: d :: a ++ s).drop 2 = a ++ s := fun s => rfl
    have hhead : ∀ s, (c :: d :: a ++ s).head? = some c := fun s => rfl
    unfold blankReach at h
    unfold blankLength
    rw [htake, hdrop, hhead, List.length_cons, List.length_cons] at h
    rw [htake, htake, hdrop, hdrop, hhead, hhead]
    by_cases hline : [c, d] = ['/', '/']
    · rw [if_pos hline] at h
      rw [if_pos hline, if_pos hline]
      unfold lineLength at h ⊢
      rw [takeWhile_append_of_lt (b := b) _ (by omega)]
    by_cases hblock : [c, d] = ['/', '*']
    · rw [if_neg hline, if_pos hblock] at h
      rw [if_neg hline, if_neg hline, if_pos hblock, if_pos hblock]
      cases hlen : blockLength? (a ++ b) with
      | none =>
        -- an open comment is looked at to its end, and there is more of it than `a`
        have hpos := List.length_pos_iff.mpr hb
        rw [hlen] at h
        simp only [Option.map_none, Option.getD_none, List.length_append, List.length_cons] at h
        omega
      | some n =>
        rw [hlen] at h
        simp only [Option.map_some, Option.getD_some] at h
        rw [blockLength?_append _ hlen (by omega)]
    · rw [if_neg hline, if_neg hline, if_neg hblock, if_neg hblock]

end Packwright.Syntax.Lexeme
