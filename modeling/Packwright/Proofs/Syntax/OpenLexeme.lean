import Packwright.Syntax.Lexeme

/-!
# A comment behind a lexeme

A comment that starts behind a lexeme does not change how far the lexeme reaches, so it does not
matter to the reader of the lexeme whether the comment is there. Throughout, `a ++ b` are the
characters as they are, the lexeme lies in `a`, and in `a ++ '/' :: '*' :: t` a comment stands
behind `a`.

* An open lexeme, such as a name or a number, ends because of what comes next. It ends before a
  slash, too (`StopsAtComment`).
* A closed lexeme, such as a text, ends with a mark of its own (`ClosesBefore`).
-/

namespace Packwright.Syntax.Lexeme

open Packwright.Text

/-- A lexeme that ends in `a` ends there with a comment behind `a`, too. -/
def StopsAtComment (length : List Char → Nat) : Prop :=
  ∀ a b t, length (a ++ b) ≤ a.length → length (a ++ '/' :: '*' :: t) = length (a ++ b)

/-! ## Stretches of characters -/

/-- A stretch that no slash belongs to ends with `a` if it reaches its end, and the comment adds
nothing. -/
theorem length_takeWhile_comment {p : Char → Bool} (hp : p '/' = false) (a t : List Char) :
    ((a ++ '/' :: '*' :: t).takeWhile p).length = (a.takeWhile p).length := by
  have hstop : ('/' :: '*' :: t).takeWhile p = [] := List.takeWhile_cons_of_neg (by simp [hp])
  rw [List.takeWhile_append, hstop]
  split
  · rename_i hall
    rw [List.append_nil, hall]
  · rfl

/-- A stretch ends in `a`, or all of `a` belongs to it and more besides. The two cases are told
apart by its length. -/
theorem length_takeWhile_append (p : Char → Bool) (a b : List Char) :
    ((a ++ b).takeWhile p).length = (a.takeWhile p).length ∨
      (a.takeWhile p).length = a.length ∧ a.length < ((a ++ b).takeWhile p).length := by
  rw [List.takeWhile_append]
  split
  · rename_i hall
    rw [List.length_append]
    omega
  · exact .inl rfl

/-- A stretch that ends in `a` is as long with a comment behind `a`. -/
theorem length_takeWhile_comment_of_le {p : Char → Bool} (hp : p '/' = false) {a b : List Char}
    (t : List Char) (h : ((a ++ b).takeWhile p).length ≤ a.length) :
    ((a ++ '/' :: '*' :: t).takeWhile p).length = ((a ++ b).takeWhile p).length := by
  rw [length_takeWhile_comment hp]
  rcases length_takeWhile_append p a b with heq | ⟨-, hlt⟩
  · exact heq.symm
  · exact absurd h (Nat.not_le.mpr hlt)

/-! ## Escapes by number -/

theorem isHex_slash : isHex '/' = false := by decide

/-- Digits in braces are closed by their brace; digits at the end of `a` wait for one, and a slash
is none. -/
theorem bracedDigitsLength_comment : StopsAtComment bracedDigitsLength := by
  intro a b t h
  unfold bracedDigitsLength at h ⊢
  dsimp only at h ⊢
  rw [length_takeWhile_comment isHex_slash]
  rcases length_takeWhile_append isHex a b with heq | ⟨hall, hlt⟩
  · have hle : (a.takeWhile isHex).length ≤ a.length := (List.takeWhile_sublist _).length_le
    rw [heq, List.drop_append_of_le_length hle] at h ⊢
    rw [List.drop_append_of_le_length hle]
    cases hrest : a.drop (a.takeWhile isHex).length with
    | nil =>
      -- the digits end with `a`, so a brace behind them is out of reach
      have hlen := List.drop_eq_nil_iff.mp hrest
      rw [hrest] at h
      rw [if_neg (by simp), if_neg fun hcond => ?_]
      rw [if_pos hcond] at h
      omega
    | cons d rest => rfl
  · rw [hall, List.drop_left, if_neg (by simp), if_neg fun hcond => ?_]
    rw [if_pos hcond] at h
    omega

theorem numberEscapeLength_of_ne {c : Char} (hc : c ≠ 'u') (s : List Char) :
    numberEscapeLength (c :: s) = 0 := by
  rw [numberEscapeLength]
  · exact fun rest h => hc (List.cons.inj h).1
  · exact fun rest h => hc (List.cons.inj h).1

/-- Without a brace an escape by number has exactly four digits. -/
theorem numberEscapeLength_digits {s : List Char} (hs : s.head? ≠ some '\x7b') :
    numberEscapeLength ('u' :: s) = if 4 ≤ (s.takeWhile isHex).length then 5 else 0 := by
  rw [numberEscapeLength]
  exact fun rest h => hs (by rw [h]; rfl)

/-- An escape by number is the letter and something more, or it is none. -/
theorem two_le_numberEscapeLength (s : List Char) :
    numberEscapeLength s = 0 ∨ 2 ≤ numberEscapeLength s := by
  unfold numberEscapeLength
  split
  · split
    · exact .inl rfl
    · exact .inr (by omega)
  · split
    · exact .inr (by omega)
    · exact .inl rfl
  · exact .inl rfl

/-- **An escape by number ends in `a` or is none there.** The cases are those of the definition, by
the first two characters of `a`. -/
theorem numberEscapeLength_comment : StopsAtComment numberEscapeLength := by
  intro a b t h
  match a, h with
  | [], h =>
    rw [List.nil_append, numberEscapeLength_of_ne (by decide)]
    exact (Nat.le_zero.mp h).symm
  | [c], h =>
    -- an escape has two characters at least, so one that ends inside of `a` is none
    have hnone : numberEscapeLength ([c] ++ b) = 0 := by
      have htwo := two_le_numberEscapeLength ([c] ++ b)
      rw [List.length_singleton] at h
      omega
    rw [hnone, List.singleton_append]
    by_cases hu : c = 'u'
    · rw [hu, numberEscapeLength_digits (by simp), List.takeWhile_cons_of_neg (by simp [isHex_slash])]
      rfl
    · exact numberEscapeLength_of_ne hu _
  | c :: d :: a, h =>
    simp only [List.cons_append] at h ⊢
    by_cases hu : c = 'u'
    · subst hu
      by_cases hd : d = '\x7b'
      · subst hd
        rw [numberEscapeLength, bracedDigitsLength_comment a b t]
        · rfl
        · rw [numberEscapeLength] at h
          split at h
          · rename_i hzero
            omega
          · simp only [List.length_cons] at h
            omega
      · rw [numberEscapeLength_digits (by simpa using hd)] at h ⊢
        rw [numberEscapeLength_digits (by simpa using hd), ← List.cons_append, ← List.cons_append,
          length_takeWhile_comment isHex_slash]
        rw [← List.cons_append] at h
        have hcases := length_takeWhile_append isHex (d :: a) b
        simp only [List.length_cons] at h hcases
        split at h
        · rw [if_pos (by omega), if_pos (by omega)]
        · rw [if_neg (by omega), if_neg (by omega)]
    · rw [numberEscapeLength_of_ne hu, numberEscapeLength_of_ne hu]

/-- The closing brace is one of the characters. -/
theorem bracedDigitsLength_le (s : List Char) : bracedDigitsLength s ≤ s.length := by
  unfold bracedDigitsLength
  dsimp only
  split
  · rename_i hcond
    have hlt : (s.takeWhile isHex).length < s.length := by
      refine Nat.lt_of_not_le fun hge => ?_
      rw [List.drop_eq_nil_of_le hge] at hcond
      exact absurd hcond.2 (by simp)
    exact hlt
  · exact Nat.zero_le _

/-- An escape by number is no longer than what there is. -/
theorem numberEscapeLength_le (s : List Char) : numberEscapeLength s ≤ s.length := by
  unfold numberEscapeLength
  split
  · rename_i rest
    have hle := bracedDigitsLength_le rest
    simp only [List.length_cons]
    split <;> omega
  · rename_i rest hno
    have hle : (rest.takeWhile isHex).length ≤ rest.length := (List.takeWhile_sublist _).length_le
    simp only [List.length_cons]
    split <;> omega
  · exact Nat.zero_le _

/-! ## Names -/

/-- A backslash belongs to a name exactly if an escape by number follows it. -/
theorem namePartLength_escape (s : List Char) :
    namePartLength ('\\' :: s) =
      if numberEscapeLength s = 0 then 0 else numberEscapeLength s + 1 := by
  rw [namePartLength]
  split
  · rename_i hzero
    rw [if_pos hzero]
  · rename_i hpos
    rw [if_neg hpos]

/-- Other characters decide by themselves whether they belong to a name. -/
theorem namePartLength_of_ne {c : Char} (hc : c ≠ '\\') (s : List Char) :
    namePartLength (c :: s) = if isNameChar c then 1 else 0 := by
  rw [namePartLength]
  exact hc

/-- One character of a name is no longer than what there is. -/
theorem namePartLength_le (s : List Char) : namePartLength s ≤ s.length := by
  cases s with
  | nil => exact Nat.zero_le _
  | cons c s =>
    have hle := numberEscapeLength_le s
    by_cases hc : c = '\\'
    · rw [hc, namePartLength_escape, List.length_cons]
      split <;> omega
    · rw [namePartLength_of_ne hc, List.length_cons]
      split <;> omega

theorem isNameChar_slash : isNameChar '/' = false := by decide

theorem namePartLength_slash (s : List Char) : namePartLength ('/' :: s) = 0 := by
  rw [namePartLength_of_ne (by decide), isNameChar_slash]
  rfl

/-- One character of a name, escaped or not, ends before a comment as it did. -/
theorem namePartLength_comment : StopsAtComment namePartLength := by
  intro a b t h
  cases a with
  | nil =>
    rw [List.nil_append, namePartLength_slash]
    exact (Nat.le_zero.mp h).symm
  | cons c a =>
    simp only [List.cons_append] at h ⊢
    by_cases hc : c = '\\'
    · -- an escape has the characters behind its backslash in `a` as well
      subst hc
      rw [namePartLength_escape] at h ⊢
      rw [namePartLength_escape, numberEscapeLength_comment a b t]
      split at h
      · omega
      · rw [List.length_cons] at h
        omega
    · rw [namePartLength_of_ne hc, namePartLength_of_ne hc]

/-- What is skipped of a name is counted. -/
theorem skip_le_nameTailLength (skip : Nat) (s : List Char) :
    min skip s.length ≤ nameTailLength skip s := by
  induction s generalizing skip with
  | nil => simp
  | cons c s ih =>
    cases skip with
    | zero => simp
    | succ skip =>
      have := ih skip
      rw [nameTailLength, List.length_cons]
      omega

/-- The characters that are skipped belong to `a`, if the name ends there. -/
theorem nameTailLength_comment {a b : List Char} (t : List Char) {skip : Nat} (hskip : skip ≤ a.length)
    (h : nameTailLength skip (a ++ b) ≤ a.length) :
    nameTailLength skip (a ++ '/' :: '*' :: t) = nameTailLength skip (a ++ b) := by
  induction a generalizing skip with
  | nil =>
    have hzero : skip = 0 := Nat.le_zero.mp hskip
    subst hzero
    rw [List.nil_append, List.nil_append, nameTailLength, namePartLength_slash]
    exact (Nat.le_zero.mp h).symm
  | cons c a ih =>
    simp only [List.cons_append, List.length_cons] at h hskip ⊢
    -- skipped characters belong to the last part of the name, which is not read again
    cases skip with
    | succ skip =>
      rw [nameTailLength] at h ⊢
      rw [nameTailLength, ih (by omega) (by omega)]
    | zero =>
      have hpart := namePartLength_comment (c :: a) b t
      simp only [List.cons_append, List.length_cons] at hpart
      have hbound := namePartLength_le (c :: (a ++ b))
      rw [nameTailLength] at h ⊢
      cases hn : namePartLength (c :: (a ++ b)) with
      | zero =>
        rw [nameTailLength, hpart (by omega), hn]
      | succ n =>
        rw [hn] at h hbound
        simp only [List.length_cons] at hbound
        have hmin := skip_le_nameTailLength n (a ++ b)
        simp only at h
        rw [nameTailLength, hpart (by omega), hn]
        simp only
        rw [ih (by omega) (by omega)]

/-- **A name that ends in `a`** is as long with a comment behind `a`. -/
theorem nameLength_comment : StopsAtComment nameLength := by
  intro a b t h
  cases a with
  | nil =>
    have hslash : nameLength ('/' :: '*' :: t) = 0 := by
      rw [nameLength, if_neg (by decide), nameTailLength, namePartLength_slash]
    rw [List.nil_append, hslash]
    exact (Nat.le_zero.mp h).symm
  | cons c a =>
    -- the first character is in `a`, so both names start with a digit or neither does
    simp only [List.cons_append] at h ⊢
    rw [nameLength] at h ⊢
    rw [nameLength]
    split
    · rfl
    · rename_i hdigit
      rw [if_neg hdigit] at h
      exact nameTailLength_comment (a := c :: a) t (Nat.zero_le _) h

/-! ## Numbers -/

/-- A character behind `n` of `a` is there with a comment behind `a` as well. -/
theorem head?_drop_comment {a b : List Char} (t : List Char) {n : Nat} {c : Char} (hn : n ≤ a.length)
    (hc : c ≠ '/') (h : ((a ++ b).drop n).head? = some c → n < a.length) :
    ((a ++ '/' :: '*' :: t).drop n).head? = some c ↔ ((a ++ b).drop n).head? = some c := by
  rw [List.drop_append_of_le_length hn] at h ⊢
  rw [List.drop_append_of_le_length hn]
  cases hrest : a.drop n with
  | nil =>
    have hlen := List.drop_eq_nil_iff.mp hrest
    rw [hrest, List.nil_append] at h
    have hno : ¬ b.head? = some c := fun hb => absurd (h hb) (Nat.not_lt.mpr hlen)
    simp only [List.nil_append, List.head?_cons, hno, iff_false]
    exact fun heq => hc (Option.some.inj heq).symm
  | cons d rest => rfl

theorem groupedLength_slash {isDigit : Char → Bool} (hd : isDigit '/' = false) (s : List Char) :
    groupedLength isDigit ('/' :: s) = 0 := by
  rw [groupedLength, if_neg (by simp [hd])]

/-- **Digits in groups** are as many with a comment behind `a`. An underscore counts only with a
digit behind it, so one at the end of `a` needs a look ahead. -/
theorem groupedLength_comment {isDigit : Char → Bool} (hd : isDigit '/' = false) :
    StopsAtComment (groupedLength isDigit) := by
  intro a b t h
  induction a with
  | nil =>
    rw [List.nil_append, groupedLength_slash hd]
    exact (Nat.le_zero.mp h).symm
  | cons c a ih =>
    rw [List.cons_append, groupedLength, List.length_cons] at h
    rw [List.cons_append, groupedLength, List.cons_append, groupedLength]
    cases a with
    | nil =>
      -- an underscore at the end of `a` counts only with a digit behind it
      have hpos : b.head?.any isDigit = true → 1 ≤ groupedLength isDigit b := by
        intro hb
        cases b with
        | nil => exact absurd hb (by simp)
        | cons d b =>
          have hdigit : isDigit d = true := by simpa using hb
          rw [groupedLength, if_pos (by simp [hdigit])]
          omega
      rw [List.nil_append] at h
      rw [List.nil_append, List.nil_append, groupedLength_slash hd]
      cases hdigit : isDigit c with
      | true =>
        rw [hdigit, Bool.true_or, if_pos rfl, List.length_nil] at h
        rw [Bool.true_or, if_pos rfl, Bool.true_or, if_pos rfl]
        omega
      | false =>
        rw [if_neg (by simp [hd]), if_neg fun hcond => ?_]
        have hany : b.head?.any isDigit = true := by
          rw [Bool.false_or, Bool.and_eq_true] at hcond
          exact hcond.2
        have := hpos hany
        rw [hdigit, if_pos hcond, List.length_nil] at h
        omega
    | cons d a =>
      have hhead : ∀ s, (d :: a ++ s).head? = some d := fun s => rfl
      rw [hhead] at h
      rw [hhead, hhead]
      cases hcond : (isDigit c || (c == '_' && Option.any isDigit (some d))) with
      | true =>
        rw [hcond, if_pos rfl] at h
        rw [if_pos rfl, if_pos rfl, ih (by omega)]
      | false => rfl

theorem digitsLength_slash {isDigit : Char → Bool} (hd : isDigit '/' = false) (s : List Char) :
    digitsLength isDigit ('/' :: s) = 0 := by
  rw [digitsLength, if_neg (by simp), groupedLength_slash hd]

/-- Digits that start with a digit and end in `a` are as many with a comment behind `a`. -/
theorem digitsLength_comment {isDigit : Char → Bool} (hd : isDigit '/' = false) :
    StopsAtComment (digitsLength isDigit) := by
  intro a b t h
  cases a with
  | nil =>
    rw [List.nil_append, digitsLength_slash hd]
    exact (Nat.le_zero.mp h).symm
  | cons c a =>
    unfold digitsLength at h ⊢
    have hhead : ∀ s, (c :: a ++ s).head? = some c := fun s => rfl
    rw [hhead] at h
    rw [hhead, hhead]
    by_cases hc : some c = some '_'
    · rw [if_pos hc, if_pos hc]
    · rw [if_neg hc] at h ⊢
      rw [if_neg hc]
      exact groupedLength_comment hd (c :: a) b t h

theorem isDigit_slash : Char.isDigit '/' = false := by decide

theorem signLength_le (s : List Char) : signLength s ≤ 1 := by
  unfold signLength
  split <;> omega

theorem exponentLength_slash (s : List Char) : exponentLength ('/' :: s) = 0 := by
  rw [exponentLength]
  exact if_neg fun h => absurd h.1 (by decide)

/-- **An exponent that ends in `a`** is as long with a comment behind `a`; without digits it is
none, and a comment brings no digits. -/
theorem exponentLength_comment : StopsAtComment exponentLength := by
  intro a b t h
  match a, h with
  | [], h =>
    rw [List.nil_append, exponentLength_slash]
    exact (Nat.le_zero.mp h).symm
  | [e], h =>
    simp only [List.singleton_append, List.length_singleton] at h ⊢
    rw [exponentLength] at h ⊢
    rw [exponentLength, if_neg, if_neg]
    · intro hcond
      rw [if_pos hcond] at h
      omega
    · show ¬ (_ ∧ 0 < digitsLength Char.isDigit ('/' :: '*' :: t))
      rw [digitsLength_slash isDigit_slash]
      exact fun hcond => absurd hcond.2 (Nat.lt_irrefl 0)
  | e :: c :: a, h =>
    -- the sign, if there is one, is inside of `a`, and the digits stand behind it
    have hsign : ∀ s, signLength (c :: a ++ s) = signLength [c] := fun s => rfl
    have hlen : signLength [c] ≤ (c :: a).length := by
      have := signLength_le [c]
      rw [List.length_cons]
      omega
    have hdrop : ∀ s, (c :: a ++ s).drop (signLength (c :: a ++ s)) =
        (c :: a).drop (signLength [c]) ++ s := fun s => by
      rw [hsign, List.drop_append_of_le_length hlen]
    rw [List.cons_append, exponentLength, hdrop, hsign] at h
    show exponentLength (e :: (c :: a ++ '/' :: '*' :: t)) = exponentLength (e :: (c :: a ++ b))
    rw [exponentLength, exponentLength, hdrop, hdrop, hsign, hsign]
    by_cases he : e = 'e' ∨ e = 'E'
    · rw [digitsLength_comment isDigit_slash]
      by_cases hpos : 0 < digitsLength Char.isDigit ((c :: a).drop (signLength [c]) ++ b)
      · rw [if_pos ⟨he, hpos⟩, List.length_cons] at h
        rw [List.length_drop]
        omega
      · omega
    · rw [if_neg fun hcond => he hcond.1, if_neg fun hcond => he hcond.1]

/-- In no base is the slash a digit. -/
theorem isDigit_slash_of_radixDigit? {letter : Char} {isDigit : Char → Bool}
    (h : radixDigit? letter = some isDigit) : isDigit '/' = false := by
  unfold radixDigit? at h
  split at h
  · rw [← Option.some.inj h]
    exact isHex_slash
  · rw [← Option.some.inj h]
    decide
  · rw [← Option.some.inj h]
    decide
  · exact absurd h (by simp)

theorem radixLength_of_ne {c : Char} (hc : c ≠ '0') (s : List Char) : radixLength (c :: s) = 0 := by
  rw [radixLength]
  exact fun letter rest h => hc (List.cons.inj h).1

/-- A letter that announces no base makes no number of its kind. -/
theorem radixLength_none {letter : Char} (hd : radixDigit? letter = none) (s : List Char) :
    radixLength ('0' :: letter :: s) = 0 := by
  rw [radixLength, hd]

/-- A letter that announces a base needs a digit of it. -/
theorem radixLength_some {letter : Char} {isDigit : Char → Bool}
    (hd : radixDigit? letter = some isDigit) (s : List Char) :
    radixLength ('0' :: letter :: s) =
      if digitsLength isDigit s = 0 then 0 else digitsLength isDigit s + 2 := by
  rw [radixLength, hd]

/-- A number with a letter for its base has the zero and the letter at least, or it is none. -/
theorem two_le_radixLength (s : List Char) : radixLength s = 0 ∨ 2 ≤ radixLength s := by
  match s with
  | [] => exact .inl rfl
  | [c] => exact .inl (by simp [radixLength])
  | c :: letter :: s =>
    by_cases hc : c = '0'
    · subst hc
      cases hd : radixDigit? letter with
      | none => exact .inl (radixLength_none hd s)
      | some isDigit =>
        rw [radixLength_some hd]
        split
        · exact .inl rfl
        · exact .inr (Nat.le_add_left 2 _)
    · exact .inl (radixLength_of_ne hc _)

/-- A number with a letter for its base that ends in `a` is as long with a comment behind `a`. -/
theorem radixLength_comment : StopsAtComment radixLength := by
  intro a b t h
  match a, h with
  | [], h =>
    rw [List.nil_append, radixLength_of_ne (by decide)]
    exact (Nat.le_zero.mp h).symm
  | [c], h =>
    have hnone : radixLength ([c] ++ b) = 0 := by
      have htwo := two_le_radixLength ([c] ++ b)
      rw [List.length_singleton] at h
      omega
    rw [hnone, List.singleton_append]
    by_cases hc : c = '0'
    · rw [hc]
      exact radixLength_none (by decide) _
    · exact radixLength_of_ne hc _
  | c :: letter :: a, h =>
    simp only [List.cons_append] at h ⊢
    by_cases hc : c = '0'
    · subst hc
      cases hd : radixDigit? letter with
      | none => rw [radixLength_none hd, radixLength_none hd]
      | some isDigit =>
        rw [radixLength_some hd] at h ⊢
        rw [radixLength_some hd]
        -- digits that go beyond `a` would make the number longer than `h` says
        have hle : digitsLength isDigit (a ++ b) ≤ a.length := by
          by_cases hzero : digitsLength isDigit (a ++ b) = 0
          · omega
          · rw [if_neg hzero, List.length_cons, List.length_cons] at h
            omega
        rw [digitsLength_comment (isDigit_slash_of_radixDigit? hd) a b t hle]
    · rw [radixLength_of_ne hc, radixLength_of_ne hc]

/-- Digits with an exponent that end in `a` are as long with a comment behind `a`. -/
theorem scaledLength_comment : StopsAtComment scaledLength := by
  intro a b t h
  unfold scaledLength at h ⊢
  dsimp only at h ⊢
  rw [digitsLength_comment isDigit_slash a b t (by omega)]
  have hle : digitsLength Char.isDigit (a ++ b) ≤ a.length := by omega
  rw [List.drop_append_of_le_length hle] at h ⊢
  rw [List.drop_append_of_le_length hle, exponentLength_comment]
  rw [List.length_drop]
  omega

/-- Without a point only an exponent can follow the whole digits. -/
theorem fractionLength_of_ne {c : Char} (hc : c ≠ '.') (s : List Char) :
    fractionLength (c :: s) = exponentLength (c :: s) := by
  rw [fractionLength]
  exact fun rest h => hc (List.cons.inj h).1

/-- What follows the whole digits of a number ends before a comment as it did. -/
theorem fractionLength_comment : StopsAtComment fractionLength := by
  intro a b t h
  cases a with
  | nil =>
    rw [List.nil_append, fractionLength_of_ne (by decide), exponentLength_slash]
    exact (Nat.le_zero.mp h).symm
  | cons c a =>
    by_cases hc : c = '.'
    · subst hc
      simp only [List.cons_append, fractionLength, List.length_cons] at h ⊢
      rw [scaledLength_comment a b t (by omega)]
    · simp only [List.cons_append, fractionLength_of_ne hc] at h ⊢
      exact exponentLength_comment (c :: a) b t h

/-- **A number in base ten that ends in `a`** is as long with a comment behind `a`. -/
theorem decimalLength_comment : StopsAtComment decimalLength := by
  intro a b t h
  unfold decimalLength at h ⊢
  dsimp only at h ⊢
  have hdigits : digitsLength Char.isDigit (a ++ b) ≤ a.length := by
    split at h
    · omega
    · split at h <;> omega
  rw [digitsLength_comment isDigit_slash a b t hdigits]
  by_cases hzero : digitsLength Char.isDigit (a ++ b) = 0
  · -- without a whole part, a point counts only with a digit behind it
    rw [if_pos hzero] at h ⊢
    rw [if_pos hzero]
    cases a with
    | nil =>
      rw [List.length_nil] at h
      rw [if_neg (by simp), List.nil_append, if_neg fun hcond => ?_]
      rw [List.nil_append, if_pos hcond] at h
      omega
    | cons c a =>
      have hhead : ∀ s, (c :: a ++ s).head? = some c := fun s => rfl
      have hdrop : ∀ s, (c :: a ++ s).drop 1 = a ++ s := fun s => rfl
      rw [hhead, hdrop, List.length_cons] at h
      rw [hhead, hhead, hdrop, hdrop]
      by_cases hcond : some c = some '.' ∧ 0 < digitsLength Char.isDigit (a ++ b)
      · rw [if_pos hcond] at h ⊢
        have hle : digitsLength Char.isDigit (a ++ b) ≤ scaledLength (a ++ b) := Nat.le_add_right _ _
        rw [digitsLength_comment isDigit_slash a b t (by omega), if_pos hcond,
          scaledLength_comment a b t (by omega)]
      · rw [if_neg hcond, if_neg fun hother => hcond ⟨hother.1, ?_⟩]
        refine Nat.pos_of_ne_zero fun hnone => ?_
        have := hother.2
        rw [digitsLength_comment isDigit_slash a b t (by omega)] at this
        omega
  · rw [if_neg hzero] at h ⊢
    rw [if_neg hzero, List.take_append_of_le_length hdigits, List.drop_append_of_le_length hdigits]
    rw [List.take_append_of_le_length hdigits, List.drop_append_of_le_length hdigits] at h ⊢
    split
    · rename_i hfraction
      rw [if_pos hfraction] at h
      rw [fractionLength_comment _ b t]
      rw [List.length_drop]
      omega
    · rfl

/-- A number in base ten holds its whole digits. -/
theorem digitsLength_le_decimalLength (s : List Char) :
    digitsLength Char.isDigit s ≤ decimalLength s := by
  unfold decimalLength
  dsimp only
  split
  · omega
  · split <;> omega

/-- **A number that ends in `a`** is as long with a comment behind `a`, in all three of its forms. -/
theorem numberLength_comment : StopsAtComment numberLength := by
  intro a b t h
  have hdecimal := digitsLength_le_decimalLength (a ++ b)
  unfold numberLength at h ⊢
  dsimp only at h ⊢
  have hradix : radixLength (a ++ b) ≤ a.length := by
    split at h
    · split at h <;> omega
    · omega
  rw [radixLength_comment a b t hradix]
  by_cases hpos : 0 < radixLength (a ++ b)
  · rw [if_pos hpos] at h ⊢
    rw [if_pos hpos]
    -- the letter of a big number is read with it, so it stands before the comment
    have hletter := head?_drop_comment (c := 'n') (b := b) t hradix (by decide) fun hn => by
      rw [if_pos hn] at h
      omega
    simp only [hletter]
  · rw [if_neg hpos] at h ⊢
    rw [if_neg hpos]
    have hdigits : digitsLength Char.isDigit (a ++ b) ≤ a.length := by split at h <;> omega
    rw [digitsLength_comment isDigit_slash a b t hdigits]
    have hletter := fun hwhole : 0 < digitsLength Char.isDigit (a ++ b) =>
      head?_drop_comment (c := 'n') (b := b) t hdigits (by decide) fun hn => by
        rw [if_pos ⟨hwhole, hn⟩] at h
        omega
    have hboth := and_congr_right hletter
    by_cases hcond : 0 < digitsLength Char.isDigit (a ++ b) ∧
        ((a ++ b).drop (digitsLength Char.isDigit (a ++ b))).head? = some 'n'
    · rw [if_pos hcond, if_pos (hboth.mpr hcond)]
    · rw [if_neg hcond] at h ⊢
      rw [if_neg fun hother => hcond (hboth.mp hother), decimalLength_comment a b t h]

/-! ## Marks -/

/-- A slash is in a mark of punctuation only if the mark starts with it. -/
theorem slash_not_mem_tail {m : List Char} (hm : m ∈ punctuation) : '/' ∉ m.drop 1 := by
  revert m
  decide +kernel

/-- A mark that starts in `a` does not take in the slash behind it. -/
theorem length_le_of_prefix_comment {a m t : List Char} (hne : a ≠ []) (hm : '/' ∉ m.drop 1)
    (h : m <+: a ++ '/' :: '*' :: t) : m.length ≤ a.length := by
  refine Nat.le_of_not_lt fun hlt => hm ?_
  have hslash : m[a.length] = '/' := by
    rw [h.getElem hlt, List.getElem_append_right (Nat.le_refl _)]
    simp
  have hpos := List.length_pos_iff.mpr hne
  rw [← hslash]
  exact List.mem_drop_iff_getElem.mpr ⟨a.length - 1, by omega, by congr 1; omega⟩

/-- A mark starts the characters with a comment behind `a` exactly if it starts them without,
provided that it is not cut off by the end of `a`. -/
theorem prefix_comment_iff {a b m t : List Char} (hne : a ≠ []) (hm : '/' ∉ m.drop 1)
    (h : m <+: a ++ b → m.length ≤ a.length) : m <+: a ++ '/' :: '*' :: t ↔ m <+: a ++ b := by
  constructor
  · intro hpre
    have hle := length_le_of_prefix_comment hne hm hpre
    exact (List.prefix_of_prefix_length_le hpre (List.prefix_append _ _) hle).trans
      (List.prefix_append _ _)
  · intro hpre
    exact (List.prefix_of_prefix_length_le hpre (List.prefix_append _ _) (h hpre)).trans
      (List.prefix_append _ _)

/-- Two searches find the same if the second condition is the stronger one and holds of what the
first one finds. -/
theorem find?_of_imp {α : Type} {p q : α → Bool} {l : List α} (himp : ∀ x ∈ l, q x = true → p x = true)
    (hfound : ∀ x, l.find? p = some x → q x = true) : l.find? q = l.find? p := by
  induction l with
  | nil => rfl
  | cons x l ih =>
    have hrest : ∀ y ∈ l, q y = true → p y = true := fun y hy => himp y (List.mem_cons_of_mem _ hy)
    -- the first search stops at the first element exactly if the second one does
    cases hp : p x with
    | true =>
      rw [List.find?_cons_of_pos hp, List.find?_cons_of_pos (hfound x (List.find?_cons_of_pos hp))]
    | false =>
      have hq : ¬ q x = true := fun hq => by
        have := himp x List.mem_cons_self hq
        rw [hp] at this
        exact absurd this (by simp)
      have hp' : ¬ p x = true := by rw [hp]; simp
      rw [List.find?_cons_of_neg hp', List.find?_cons_of_neg hq]
      exact ih hrest fun y hy => hfound y (by rw [List.find?_cons_of_neg hp', hy])

/-- The first mark that fits is the same one, if it ends in `a`. -/
theorem find?_comment {a b t : List Char} (hne : a ≠ [])
    (h : ((punctuation.find? fun m => m.isPrefixOf (a ++ b)).getD []).length ≤ a.length) :
    (punctuation.find? fun m => m.isPrefixOf (a ++ '/' :: '*' :: t)) =
      punctuation.find? fun m => m.isPrefixOf (a ++ b) := by
  -- no mark that fits takes in the slash, and the one that fitted before still does
  refine find?_of_imp (fun m hm hprefix => ?_) fun m hfound => ?_
  · have hpre := List.isPrefixOf_iff_prefix.mp hprefix
    have hle := length_le_of_prefix_comment hne (slash_not_mem_tail hm) hpre
    have hin : m <+: a := List.prefix_of_prefix_length_le hpre (List.prefix_append _ _) hle
    exact List.isPrefixOf_iff_prefix.mpr (hin.trans (List.prefix_append _ _))
  · have hpre := List.isPrefixOf_iff_prefix.mp
      (List.find?_some (p := fun m : List Char => m.isPrefixOf (a ++ b)) hfound)
    have hm := slash_not_mem_tail (List.mem_of_find?_eq_some hfound)
    rw [hfound] at h
    exact List.isPrefixOf_iff_prefix.mpr ((prefix_comment_iff hne hm fun _ => h).mpr hpre)

theorem head_of_isChoiceOfFraction {c : Char} {s : List Char}
    (h : isChoiceOfFraction (c :: s) = true) : c = '?' := by
  rw [isChoiceOfFraction, Bool.and_eq_true, beq_iff_eq] at h
  exact (List.cons.inj h.1).1

/-- A question mark before a fraction is one if its three characters are in `a`. -/
theorem isChoiceOfFraction_comment {a b t : List Char} (hne : a ≠ [])
    (h : isChoiceOfFraction (a ++ b) = true → 3 ≤ a.length) :
    isChoiceOfFraction (a ++ '/' :: '*' :: t) = isChoiceOfFraction (a ++ b) := by
  have hno : a.length < 3 → isChoiceOfFraction (a ++ b) = false := fun hlt =>
    Bool.eq_false_iff.mpr fun hchoice => absurd (h hchoice) (Nat.not_le.mpr hlt)
  match a, hne, hno with
  | [c], _, hno =>
    rw [hno (by simp), isChoiceOfFraction]
    simp
  | [c, d], _, hno =>
    rw [hno (by simp), isChoiceOfFraction]
    simp [isDigit_slash]
  | c :: d :: e :: a, _, _ => rfl

/-- **A mark that ends in `a`** is the same with a comment behind `a`. -/
theorem mark?_comment {a b t : List Char} (hne : a ≠ [])
    (hchoice : isChoiceOfFraction (a ++ b) = true → 3 ≤ a.length)
    (h : ((mark? (a ++ b)).getD []).length ≤ a.length) :
    mark? (a ++ '/' :: '*' :: t) = mark? (a ++ b) := by
  unfold mark? at h ⊢
  rw [isChoiceOfFraction_comment hne hchoice]
  split
  · rfl
  · rename_i hno
    rw [if_neg hno] at h
    exact find?_comment hne h

/-- Two characters that count as one are in `a`, or they do not count as one: a slash pairs up with
nothing. -/
theorem pairsUp_comment {a b t : List Char} (hne : a ≠ [])
    (h : pairsUp (a ++ b) = true → 2 ≤ a.length) :
    pairsUp (a ++ '/' :: '*' :: t) = pairsUp (a ++ b) := by
  match a, hne, h with
  | [c], _, h =>
    -- a single character pairs up with what follows it, which is the slash then
    have hno : pairsUp ([c] ++ b) = false :=
      Bool.eq_false_iff.mpr fun hpair => absurd (h hpair) (by simp)
    rw [hno, List.singleton_append, pairsUp, isDigit_slash]
    cases hplus : c == '+' || c == '-' with
    | false => simp
    | true =>
      have hc : c ≠ '/' := by
        rintro rfl
        exact absurd hplus (by decide)
      simp [hc.symm]
  | c :: d :: a, _, _ => rfl

/-- Whether a line goes on with a statement is settled by its first mark or word. -/
theorem continuesStatement_comment {a b t : List Char} (hne : a ≠ [])
    (hpair : pairsUp (a ++ b) = true → 2 ≤ a.length) (h : nameLength (a ++ b) ≤ a.length) :
    continuesStatement (a ++ '/' :: '*' :: t) = continuesStatement (a ++ b) := by
  obtain ⟨c, rest, rfl⟩ := List.exists_cons_of_ne_nil hne
  have hhead : ∀ s, (c :: rest ++ s).head? = some c := fun s => rfl
  unfold continuesStatement
  rw [hhead, hhead, pairsUp_comment hne hpair, nameLength_comment _ b t h,
    List.take_append_of_le_length h, List.take_append_of_le_length h]

/-! ## Markup -/

/-- The name of an element that ends in `a` is as long with a comment behind `a`. -/
theorem elementNameLength_comment : StopsAtComment elementNameLength := by
  intro a b t h
  unfold elementNameLength at h ⊢
  dsimp only at h ⊢
  have hname : nameLength (a ++ b) ≤ a.length := by split at h <;> omega
  rw [nameLength_comment a b t hname]
  -- behind the name proper, letters and hyphens go on as long as they did
  rw [List.drop_append_of_le_length hname] at h ⊢
  rw [List.drop_append_of_le_length hname]
  by_cases hzero : nameLength (a ++ b) = 0
  · rw [if_pos hzero, if_pos hzero]
  · rw [if_neg hzero] at h ⊢
    rw [if_neg hzero, length_takeWhile_comment_of_le (by decide)]
    rw [List.length_drop]
    omega

end Packwright.Syntax.Lexeme
