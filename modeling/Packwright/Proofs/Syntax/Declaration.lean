import Packwright.Proofs.Syntax.Running

/-!
# A declaration that reads on

Two statements, the declaration of a variable without a value and an expression that starts with a
parenthesis, become one declaration when a sign for a value takes the place of the semicolon between
them.

* `exists_readGoal_declaration` reads a declaration up to what stands behind its name, and says how
  the statements go on from there.
* `exists_of_statements_opening` takes the reading of an expression that is a statement apart.
* `readGoal_fused` reads the one declaration in place of the two statements, and `parse?_fused` a
  program with it. What stands before the declaration is not read again: `Arrives` says that the
  reader of the program has come as far.
-/

namespace Packwright.Syntax

open Lexeme Scan Reader

variable {calls : Goal → Cursor → Outcome (List Node)} {c : Cursor} {ended : Bool} {count : Nat}
  {s : List Char}

/-! ## Statements at a known place -/

/-- Most characters start no markup comment. -/
theorem markupCommentLength_cons {x : Char} (s : List Char) (h : x ≠ '<') (h' : x ≠ '-') :
    markupCommentLength (x :: s) = 0 := by
  have hopening : ('<' == x) = false := beq_eq_false_iff_ne.mpr h.symm
  have hclosing : ('-' == x) = false := beq_eq_false_iff_ne.mpr h'.symm
  simp [markupCommentLength, markedLineLength, List.isPrefixOf, hopening, hclosing]

/-- A declaring word with a name behind it. -/
structure Lexeme.Declares (w : String) (blanks name behind : List Char) : Prop where
  word : w ∈ ["var", "let", "const"]
  blanks_ne_nil : blanks ≠ []
  blanks : ∀ x ∈ blanks, isBlank x = true
  name : IsName name
  behind : ∀ x ∈ behind, isBlank x = true

namespace Lexeme.Declares

variable {w : String} {blanks name behind : List Char}

theorem word_cases (h : Declares w blanks name behind) : w = "var" ∨ w = "let" ∨ w = "const" := by
  simpa using h.word

/-- A name starts a token: its first character is neither a blank nor a slash. -/
theorem startsToken_name (h : Declares w blanks name behind) (s : List Char) :
    StartsToken (name ++ s) := by
  obtain ⟨x, rest, heq⟩ := List.exists_cons_of_ne_nil h.name.ne_nil
  have hx := List.all_eq_true.mp h.name.chars x (by rw [heq]; exact List.mem_cons_self)
  rw [heq]
  refine startsToken_cons (Bool.eq_false_iff.mpr fun hblank => ?_) ?_
  · rw [isNameChar_of_isBlank hblank] at hx
    exact absurd hx (by simp)
  · rintro rfl
    exact absurd hx (by decide)

/-- The declaring word is read as a word of its own, since a blank stands behind it. -/
theorem take_nameLength (h : Declares w blanks name behind) (s : List Char) :
    (w.toList ++ (blanks ++ s)).take (nameLength (w.toList ++ (blanks ++ s))) = w.toList := by
  have hends : EndsName (blanks ++ s) := by
    obtain ⟨x, rest, heq⟩ := List.exists_cons_of_ne_nil h.blanks_ne_nil
    have hx := h.blanks x (by rw [heq]; exact List.mem_cons_self)
    rw [heq]
    exact endsName_cons (isNameChar_of_isBlank hx) (ne_slash_of_isBlank hx).2
  have hword : w.toList ≠ [] ∧ w.toList.all isNameChar = true ∧
      w.toList.head?.any Char.isDigit = false := by
    rcases h.word_cases with rfl | rfl | rfl <;> decide
  exact take_nameLength_append hword.1 hword.2.1 hword.2.2 hends

/-- The declaring word is taken with the blanks behind it, and the cursor stands before the name. -/
theorem run_keyword (calls : Goal → Cursor → Outcome (List Node))
    (h : Declares w blanks name behind)
    (hc : c.At (w.toList ++ (blanks ++ (name ++ s))) ended count) :
    ∃ d, (keyword w).runWith calls c = .done (.leaf .token count w.toList) d ∧
      d.At (name ++ s) (blanks.any isLineEnd) (count + 1) := by
  refine Syntax.run_keyword calls .token hc ?_ ?_ h.blanks (h.startsToken_name s)
  · rcases h.word_cases with rfl | rfl | rfl <;> decide
  · rw [hc.rest]
    exact h.take_nameLength _

/-- The word `let` declares what stands behind it, since that is a name. -/
theorem run_declarationWord? (calls : Goal → Cursor → Outcome (List Node))
    (h : Declares w blanks name behind)
    (hc : c.At (w.toList ++ (blanks ++ (name ++ s))) ended count) (hs : EndsName s) :
    declarationWord?.runWith calls c = .done (some w) c := by
  have hword : c.rest.take (nameLength c.rest) = w.toList := by
    rw [hc.rest]
    exact h.take_nameLength _
  obtain ⟨d, hkeyword, hd⟩ := run_keyword calls h hc
  have hname : d.rest.take (nameLength d.rest) = name := by
    rw [hd.rest, take_nameLength_append h.name.ne_nil h.name.chars h.name.first hs]
  have hne : ∀ {operator : List Char}, isReserved operator = true → name ≠ operator := by
    intro operator hreserved heq
    rw [← heq, h.name.free] at hreserved
    exact absurd hreserved (by simp)
  rcases h.word_cases with rfl | rfl | rfl
  · simp [declarationWord?, runWith_bind, runWith_pure, run_atWord, hword]
  · -- the reader looks ahead to the name, which is neither empty nor an operator
    have hahead : (lookAhead do
        let _ ← keyword "let"
        let c ← head?
        let w ← Scan.word
        let isOperator := w == "in".toList || w == "instanceof".toList
        return (c == some '[' || c == some '\x7b' || !w.isEmpty) && !isOperator).runWith calls c =
        .done (some true) c := by
      have hsome : name.isEmpty = false := by simpa using h.name.ne_nil
      have hoperator : (name == "in".toList || name == "instanceof".toList) = false := by
        rw [beq_eq_false_iff_ne.mpr (hne (by decide)), beq_eq_false_iff_ne.mpr (hne (by decide))]
        rfl
      rw [Scan.runWith, runWith_bind_of_done hkeyword, runWith_bind_of_done (run_head? d),
        runWith_bind_of_done (run_word d), hname]
      dsimp only
      rw [hsome, hoperator, runWith_pure, Bool.not_false, Bool.or_true, Bool.true_and]
    rw [declarationWord?, runWith_bind_of_done (run_atWord "var" c), hword, if_neg (by decide),
      runWith_bind_of_done (run_atWord "const" c), hword, if_neg (by decide),
      runWith_bind_of_done (run_atWord "let" c), hword, if_pos (by decide)]
    exact runWith_bind_of_done hahead
  · simp [declarationWord?, runWith_bind, runWith_pure, run_atWord, hword]

/-- Statements that start with a declaration are read as it, and then the others. -/
theorem run_statements (h : Declares w blanks name behind)
    (hc : c.At (w.toList ++ (blanks ++ (name ++ s))) ended count) (hs : EndsName s) :
    statements.runWith calls c = (do
        let first ← variableDeclaration w false
        return first :: (← read .statements)).runWith calls c := by
  have hword : c.rest.take (nameLength c.rest) = w.toList := by
    rw [hc.rest]
    exact h.take_nameLength _
  -- what stands first is a declaring word, which no other kind of statement starts with
  have hdeclares := run_declarationWord? calls h hc hs
  have hw := h.word_cases
  have hhead : c.rest.head? = w.toList.head? := by
    rw [hc.rest]
    rcases hw with rfl | rfl | rfl <;> rfl
  have hmarkup : markupCommentLength c.rest = 0 := by
    rw [hc.rest]
    rcases hw with rfl | rfl | rfl <;> exact markupCommentLength_cons _ (by decide) (by decide)
  have hstatement : statement.runWith calls c = (variableDeclaration w false).runWith calls c := by
    rcases hw with rfl | rfl | rfl <;>
      simp [statement, runWith_bind, run_skipMarkup hmarkup, run_word, hword, wordStatement,
        hdeclares]
  rcases hw with rfl | rfl | rfl <;>
    simp [statements, runWith_bind, runWith_pure, run_skipMarkup hmarkup, atEnd, atWord, run_head?,
      run_word, hhead, hword, hstatement]

end Lexeme.Declares

/-- An expression in parentheses, or one that starts with them, is read as a statement, and then the
others. -/
theorem run_statements_opening (hc : c.At ('(' :: s) ended count) :
    statements.runWith calls c = (do
        let first ← expressionStatement
        return first :: (← read .statements)).runWith calls c := by
  have hrest := hc.rest
  have hmarkup : markupCommentLength c.rest = 0 := by
    rw [hrest]
    exact markupCommentLength_cons s (by decide) (by decide)
  have hword : c.rest.take (nameLength c.rest) = [] := by
    have hends : EndsName ('(' :: s) := endsName_cons (by decide) (by decide)
    rw [hrest, nameLength, if_neg (by decide), nameTailLength, hends]
    rfl
  have hhead : c.rest.head? = some '(' := by
    rw [hrest]
    rfl
  have hmark : mark? c.rest = some ['('] := by
    rw [hrest]
    exact mark?_opening s
  have hstatement : statement.runWith calls c = expressionStatement.runWith calls c := by
    simp [statement, runWith_bind, run_skipMarkup hmarkup, run_word, hword, run_at_, hmark]
  simp [statements, runWith_bind, runWith_pure, run_skipMarkup hmarkup, atEnd, atWord, run_head?,
    run_word, hhead, hword, hstatement]

/-- An expression that is no sequence is read as it stands, and no comma is behind it. -/
theorem exists_assignment_of_expression {fuel : Nat} {value : Node} {e : Cursor}
    (hvalue : value.kind ≠ .sequence) (h : readGoal fuel (.expression false) c = .done [value] e) :
    ∃ fuel' ≤ fuel, readGoal fuel' (.assignment false) c = .done [value] e ∧
      ((mark? e.rest).getD [] == [',']) = false := by
  cases fuel with
  | zero => exact absurd h (by simp [readGoal])
  | succ fuel =>
    rw [readGoal_succ, Reader.ofGoal, runWith_bind_eq_done] at h
    obtain ⟨v, e₁, hexpression, hv⟩ := h
    rw [runWith_pure] at hv
    cases hv
    rw [expression, runWith_bind_eq_done] at hexpression
    obtain ⟨first, e₂, hfirst, hrest⟩ := hexpression
    rw [runWith_bind_of_done (run_at_ "," e₂)] at hrest
    refine ⟨fuel, Nat.le_succ fuel, ?_⟩
    -- a comma would make a sequence of the expression, which it is not
    cases hcomma : ((mark? e₂.rest).getD [] == ",".toList) with
    | true =>
      rw [hcomma, if_pos rfl] at hrest
      obtain ⟨_, _, -, hrest⟩ := runWith_bind_eq_done.mp hrest
      obtain ⟨_, _, -, hrest⟩ := runWith_bind_eq_done.mp hrest
      rw [run_node] at hrest
      cases hrest
      exact absurd rfl hvalue
    | false =>
      rw [hcomma, if_neg (by simp), runWith_pure] at hrest
      cases hrest
      exact ⟨run_one.mp hfirst, hcomma⟩

/-- How an expression that stands as a statement has been read, and what follows it. -/
theorem exists_of_statements_opening {fuel : Nat} {value : Node} {ending more : List Node}
    {d : Cursor} (hc : c.At ('(' :: s) ended count) (hvalue : value.kind ≠ .sequence)
    (h : readGoal (fuel + 1) .statements c =
      .done (.branch .expressionStatement (value :: ending) :: more) d) :
    ∃ fuel' ≤ fuel, ∃ e e', readGoal fuel' (.assignment false) c = .done [value] e ∧
      ((mark? e.rest).getD [] == [',']) = false ∧
      endStatement.runWith (readGoal fuel) e = .done ending e' ∧
      readGoal fuel .statements e' = .done more d := by
  rw [readGoal_succ, Reader.ofGoal, run_statements_opening hc, runWith_bind_eq_done] at h
  obtain ⟨first, e', hfirst, hmore⟩ := h
  obtain ⟨others, d', hothers, heq⟩ := runWith_bind_eq_done.mp hmore
  rw [runWith_pure] at heq
  cases heq
  -- the first statement is an expression and what ends it
  rw [expressionStatement, runWith_bind_eq_done] at hfirst
  obtain ⟨v, e, hv, hend⟩ := hfirst
  obtain ⟨tail, e'', htail, heq⟩ := runWith_bind_eq_done.mp hend
  rw [run_node] at heq
  cases heq
  obtain ⟨fuel', hle, hassignment, hcomma⟩ :=
    exists_assignment_of_expression hvalue (run_one.mp hv)
  exact ⟨fuel', hle, e, e', hassignment, hcomma, htail, hothers⟩

/-! ## One declaration for two statements -/

/-- The declaration of one variable, with its value and the sign for it if there is one, and with what
ends it; `count` tokens stand before it. -/
def declarationOf (w : String) (name : List Char) (count : Nat) (values ending : List Node) : Node :=
  .branch (if w == "var" then .variableDeclaration else .lexicalDeclaration)
    (.leaf .token count w.toList ::
      .branch .variableDeclarator (.leaf .identifier (count + 1) name :: values) :: ending)

variable {w : String} {blanks name behind last : List Char}

/-- How statements are read from a declaration on: its name, its value if there is one, its end, and
then the others. -/
theorem exists_readGoal_declaration (hw : Declares w blanks name behind) (hs : StartsToken s)
    (hends : EndsName s) (fuel : Nat)
    (hc : c.At (w.toList ++ (blanks ++ (name ++ (behind ++ s)))) ended count) :
    ∃ d, d.At s (behind.any isLineEnd) (count + 2) ∧ ∀ {values ending : List Node} {e e' : Cursor},
      (initializer false).runWith (readGoal fuel) d = .done values e →
      ((mark? e.rest).getD [] == [',']) = false →
      endStatement.runWith (readGoal (fuel + 1)) e = .done ending e' →
      readGoal (fuel + 2) .statements c =
        (read .statements >>= fun others =>
          pure (declarationOf w name count values ending :: others)).runWith
            (readGoal (fuel + 1)) e' := by
  have hnext : EndsName (behind ++ s) := endsName_append hw.behind hends
  obtain ⟨b, hkeyword, hb⟩ := Declares.run_keyword (readGoal (fuel + 1)) hw hc
  obtain ⟨d, hbinding, hd⟩ := run_binding (readGoal fuel) hw.name hb hnext hw.behind hs
  refine ⟨d, hd, ?_⟩
  intro values ending e e' hvalues hcomma hending
  have hdeclarators : readGoal (fuel + 1) (.declarators false) b =
      .done [.branch .variableDeclarator (.leaf .identifier (count + 1) name :: values)] e := by
    rw [readGoal_succ, Reader.ofGoal, declarators, runWith_bind_of_done hbinding,
      runWith_bind_of_done hvalues, runWith_bind_of_done (run_node _ _ e),
      runWith_bind_of_done (run_at_ "," e)]
    rw [show ",".toList = [','] from rfl, hcomma, if_neg (by simp), runWith_pure]
  have hdeclaration : (variableDeclaration w false).runWith (readGoal (fuel + 1)) c =
      .done (declarationOf w name count values ending) e' := by
    rw [variableDeclaration, runWith_bind_of_done hkeyword,
      runWith_bind_of_done ((run_read _ b).trans hdeclarators), runWith_bind_of_done hending]
    rfl
  rw [readGoal_succ, Reader.ofGoal, hw.run_statements hc hnext, runWith_bind_of_done hdeclaration]

theorem startsToken_semicolon (s : List Char) : StartsToken (';' :: s) :=
  startsToken_cons (by decide) (by decide)

theorem endsName_semicolon (s : List Char) : EndsName (';' :: s) :=
  endsName_cons (by decide) (by decide)

/-- A semicolon ends a statement, and the cursor passes over the blanks behind it. -/
theorem run_endStatement_semicolon (calls : Goal → Cursor → Outcome (List Node))
    (hlast : ∀ x ∈ last, isBlank x = true)
    (hc : c.At (';' :: (last ++ '(' :: s)) ended count) :
    ∃ d, endStatement.runWith calls c = .done [.leaf .token count [';']] d ∧
      d.At ('(' :: s) (last.any isLineEnd) (count + 1) := by
  have hmark : mark? c.rest = some ";".toList := by
    rw [hc.rest]
    exact mark?_semicolon _
  obtain ⟨d, hsign, hd⟩ := run_sign calls (m := ";") hc (by decide) hmark hlast
    (startsToken_cons (by decide) (by decide))
  refine ⟨d, ?_, hd⟩
  rw [endStatement, runWith_bind_of_done (run_at_ ";" c), hmark, if_pos (by decide),
    runWith_bind_of_done hsign]
  rfl

/-- Before a semicolon there is no value to read. -/
theorem run_initializer_semicolon (hc : c.At (';' :: s) ended count) :
    (initializer false).runWith calls c = .done [] c := by
  have hmark : mark? c.rest = some [';'] := by
    rw [hc.rest]
    exact mark?_semicolon s
  rw [initializer, runWith_bind_of_done (run_at_ "=" c), hmark, when, if_neg (by decide), runWith_pure]

/-- Behind a sign for a value the value is read, from a cursor that stands at it. -/
theorem exists_run_initializer_equals (calls : Goal → Cursor → Outcome (List Node))
    (hlast : ∀ x ∈ last, isBlank x = true)
    (hc : c.At ('=' :: (last ++ '(' :: s)) ended count) :
    ∃ d, d.At ('(' :: s) (last.any isLineEnd) (count + 1) ∧ ∀ {value : Node} {e : Cursor},
      calls (.assignment false) d = .done [value] e →
      (initializer false).runWith calls c = .done [.leaf .token count ['='], value] e := by
  have hmark : mark? c.rest = some "=".toList := by
    rw [hc.rest]
    cases last with
    | nil => exact mark?_equals s (by decide) (by decide)
    | cons x last =>
      have hx := hlast x List.mem_cons_self
      refine mark?_equals _ ?_ ?_ <;> (rintro rfl; exact absurd hx (by decide))
  obtain ⟨d, hsign, hd⟩ := run_sign calls (m := "=") hc (by decide) hmark hlast
    (startsToken_cons (by decide) (by decide))
  refine ⟨d, hd, ?_⟩
  intro value e hvalue
  rw [initializer, runWith_bind_of_done (run_at_ "=" c), hmark, when, if_pos (by decide),
    runWith_bind_of_done hsign, runWith_bind_of_done (run_one.mpr hvalue)]
  rfl

/-- **Two statements become one declaration** when the sign for a value takes the place of the
semicolon between them: what stood as an expression becomes the value, and all that follows stays.
Two more units of fuel are enough. -/
theorem readGoal_fused (hw : Declares w blanks name behind) (hlast : ∀ x ∈ last, isBlank x = true)
    {fuel : Nat} {c' d : Cursor} {declaration value : Node} {ending more : List Node}
    (hc : c.At (w.toList ++ (blanks ++ (name ++ (behind ++ ';' :: (last ++ '(' :: s))))) ended count)
    (hc' : c'.At (w.toList ++ (blanks ++ (name ++ (behind ++ ' ' :: '=' :: (last ++ '(' :: s)))))
      ended count)
    (hvalue : value.kind ≠ .sequence)
    (hread : readGoal fuel .statements c =
      .done (declaration :: .branch .expressionStatement (value :: ending) :: more) d) :
    declaration = declarationOf w name count [] [.leaf .token (count + 2) [';']] ∧
      ∃ d', readGoal (fuel + 2) .statements c' =
        .done (declarationOf w name count [.leaf .token (count + 2) ['='], value] ending :: more) d' ∧
        d.Alike d' := by
  obtain ⟨d₁, hread, hd₁⟩ := runWith_alike (Nat.le_add_right fuel 2) (read .statements)
    (⟨rfl, rfl, rfl⟩ : c.Alike c) hread
  -- as two statements: the semicolon ends the first, and the expression is the second
  obtain ⟨a, ha, hplain⟩ := exists_readGoal_declaration hw (startsToken_semicolon _)
    (endsName_semicolon _) fuel hc
  obtain ⟨b, hend, hb⟩ := run_endStatement_semicolon (readGoal (fuel + 1)) hlast ha
  have hnocomma : ((mark? a.rest).getD [] == [',']) = false := by
    rw [ha.rest, mark?_semicolon]
    rfl
  rw [run_read, hplain (run_initializer_semicolon ha) hnocomma hend] at hread
  obtain ⟨others, e₀, hothers, heq⟩ := runWith_bind_eq_done.mp hread
  rw [runWith_pure] at heq
  cases heq
  obtain ⟨fuel', hle, e, e', hassignment, hcomma, hending, hmore⟩ :=
    exists_of_statements_opening hb hvalue hothers
  -- as one: the expression is read again behind the sign, from a cursor that reads alike
  have hw' : Declares w blanks name (behind ++ [' ']) := by
    refine ⟨hw.word, hw.blanks_ne_nil, hw.blanks, hw.name, ?_⟩
    intro x hx
    rcases List.mem_append.mp hx with hx | hx
    · exact hw.behind x hx
    · rw [List.mem_singleton.mp hx]
      decide
  have hc'' : c'.At (w.toList ++ (blanks ++ (name ++ ((behind ++ [' ']) ++ '=' ::
      (last ++ '(' :: s))))) ended count := by
    rw [List.append_assoc behind]
    exact hc'
  obtain ⟨a', ha', hvalued⟩ := exists_readGoal_declaration hw'
    (startsToken_cons (by decide) (by decide)) (endsName_cons (by decide) (by decide)) fuel hc''
  obtain ⟨b', hb', hinitializer⟩ := exists_run_initializer_equals (readGoal fuel) hlast ha'
  obtain ⟨f, hvalue', hf⟩ := runWith_alike hle (read (.assignment false)) (hb.alike hb') hassignment
  obtain ⟨f', hending', hf'⟩ := runWith_alike (Nat.le_succ fuel) endStatement hf hending
  obtain ⟨d', hmore', hd'⟩ := runWith_alike (Nat.le_succ fuel) (read .statements) hf' hmore
  have hcomma' : ((mark? f.rest).getD [] == [',']) = false := by
    rw [hf.rest]
    exact hcomma
  refine ⟨rfl, d', ?_, hd₁.trans hd'⟩
  rw [hvalued (hinitializer hvalue') hcomma' hending', runWith_bind_of_done hmore', runWith_pure]

/-! ## Programs -/

/-- What is left to do when some parts of a program have been read. -/
def programAfter (before : List Node) : Scan Node := do
  let others ← read .statements
  check (← atEnd)
  node .program (before ++ others)

/-- Whether the reader of a program comes to a cursor among the statements of the program, with what
stands before it read; `depth` counts the statements before it. -/
def Arrives (code : List Char) (before : List Node) (depth : Nat) (c : Cursor) : Prop :=
  program.runWith (readGoal (fuelFor code.length)) (Cursor.atStart code).skip =
    (programAfter before).runWith (readGoal (fuelFor code.length - depth)) c

/-- The reader comes to the first statement of a program, behind blanks. -/
theorem exists_arrives_start {blanks : List Char} (hblanks : ∀ x ∈ blanks, isBlank x = true)
    (hs : StartsToken s) (hbang : hashBangLength s = 0) :
    ∃ c, c.At s (blanks.any isLineEnd) 0 ∧ Arrives (blanks ++ s) [] 0 c := by
  have hstart : (Cursor.atStart (blanks ++ s)).At (blanks ++ s) false 0 := ⟨rfl, rfl, rfl⟩
  have hc := hstart.skip hblanks hs
  rw [Bool.false_or] at hc
  refine ⟨_, hc, ?_⟩
  have hlook : (look Probe.hashBang).runWith (readGoal (fuelFor (blanks ++ s).length))
      (Cursor.atStart (blanks ++ s)).skip = .done 0 (Cursor.atStart (blanks ++ s)).skip := by
    rw [Scan.runWith, Probe.answer, hc.rest, hbang]
  rw [Arrives, program, runWith_bind_of_done hlook]
  rfl

theorem run_atEnd (c : Cursor) : atEnd.runWith calls c = .done (c.rest.head? == none) c :=
  rfl

/-- A check that is met leaves the cursor where it is, and the others fail. -/
theorem run_check_eq_done {b : Bool} {u : Unit} {d : Cursor} :
    (check b).runWith calls c = .done u d ↔ b = true ∧ c = d := by
  cases b with
  | true => simp [check, runWith_pure]
  | false => simp [check, failure, Scan.runWith]

/-- The rest of a program is statements to the end of the code. -/
theorem run_programAfter_eq_done {before : List Node} {tree : Node} {d : Cursor} :
    (programAfter before).runWith calls c = .done tree d ↔
      ∃ others, calls .statements c = .done others d ∧ d.rest = [] ∧
        tree = .branch .program (before ++ others) := by
  rw [programAfter, runWith_bind_eq_done]
  refine exists_congr fun others => ⟨?_, ?_⟩
  · rintro ⟨e, hothers, hrest⟩
    rw [runWith_bind_of_done (run_atEnd e), runWith_bind_eq_done] at hrest
    obtain ⟨u, e', hcheck, hnode⟩ := hrest
    obtain ⟨hend, rfl⟩ := run_check_eq_done.mp hcheck
    rw [run_node] at hnode
    cases hnode
    exact ⟨hothers, by simpa using hend, rfl⟩
  · rintro ⟨hothers, hend, rfl⟩
    refine ⟨d, hothers, ?_⟩
    rw [runWith_bind_of_done (run_atEnd d), runWith_bind_of_done (run_check (by rw [hend]; rfl) d)]
    rfl

theorem allLocated_eq_map (places : Array Nat) (ns : List Node) :
    Node.allLocated places ns = ns.map (Node.located places) := by
  induction ns with
  | nil => rfl
  | cons n ns ih => rw [Node.allLocated, ih, List.map_cons]

theorem anyHasKind_eq_any (kind : Kind) (ns : List Node) :
    Node.anyHasKind kind ns = ns.any (Node.hasKind kind) := by
  induction ns with
  | nil => rfl
  | cons n ns ih => rw [Node.anyHasKind, ih, List.any_cons]

/-- A construct in its places is a construct, with its parts in theirs. -/
theorem exists_of_located_eq_branch {places : Array Nat} {n : Node} {kind : Kind}
    {children : List Node} (h : n.located places = .branch kind children) :
    ∃ ns, n = .branch kind ns ∧ ns.map (Node.located places) = children := by
  cases n with
  | leaf kind' number text => exact absurd h (by simp [Node.located])
  | branch kind' ns =>
    rw [Node.located, allLocated_eq_map] at h
    obtain ⟨rfl, rfl⟩ := Node.branch.inj h
    exact ⟨ns, rfl, rfl⟩

/-- **A declaration and the expression behind it become one declaration of the program**, wherever
among its statements they stand, if the reader comes to them in both programs. -/
theorem parse?_fused (hw : Declares w blanks name behind) (hlast : ∀ x ∈ last, isBlank x = true)
    {code code' : List Char} (hlength : code.length < code'.length) {before : List Node} {depth : Nat}
    {c' : Cursor} (harrives : Arrives code before depth c) (harrives' : Arrives code' before depth c')
    (hc : c.At (w.toList ++ (blanks ++ (name ++ (behind ++ ';' :: (last ++ '(' :: s))))) ended count)
    (hc' : c'.At (w.toList ++ (blanks ++ (name ++ (behind ++ ' ' :: '=' :: (last ++ '(' :: s)))))
      ended count)
    {children ending more : List Node} {declaration value : Node} (hvalue : value.kind ≠ .sequence)
    (hread : parse? code = some (.branch .program children))
    (hchildren : children.drop before.length =
      declaration :: .branch .expressionStatement (value :: ending) :: more) :
    ∃ tree, parse? code' = some tree ∧ tree.unplaced =
      (Node.branch .program (children.take before.length ++
        declarationOf w name 0 [.leaf .token 0 ['='], value] ending :: more)).unplaced := by
  unfold parse? at hread
  rw [harrives] at hread
  split at hread
  case h_2 => exact absurd hread (by simp)
  case h_1 raw e hrun =>
  split at hread
  · exact absurd hread (by simp)
  rename_i hcover
  -- the statements before are in the tree already, and the others are read from the cursor on
  obtain ⟨others, hothers, hend, rfl⟩ := run_programAfter_eq_done.mp hrun
  obtain ⟨ns, hns, hmap⟩ := exists_of_located_eq_branch (Option.some.inj hread)
  obtain rfl : before ++ others = ns := (Node.branch.inj hns).2
  rw [← hmap, List.map_append, List.drop_left' (List.length_map _), List.map_eq_cons_iff] at hchildren
  obtain ⟨declaration₀, rest, rfl, -, hrest⟩ := hchildren
  obtain ⟨call₀, more₀, rfl, hcall, rfl⟩ := List.map_eq_cons_iff.mp hrest
  obtain ⟨parts, rfl, hparts⟩ := exists_of_located_eq_branch hcall
  obtain ⟨value₀, ending₀, rfl, rfl, rfl⟩ := List.map_eq_cons_iff.mp hparts
  have hvalue₀ : value₀.kind ≠ .sequence := by
    cases value₀ <;> exact hvalue
  obtain ⟨rfl, d, hfused, hd⟩ := readGoal_fused hw hlast hc hc' hvalue₀ hothers
  -- the longer program has more fuel
  have hfuel : fuelFor code.length - depth + 2 ≤ fuelFor code'.length - depth := by
    have hpos : fuelFor code.length - depth ≠ 0 := by
      intro hzero
      rw [hzero] at hothers
      exact absurd hothers (by simp [readGoal])
    unfold fuelFor at hpos ⊢
    omega
  obtain ⟨d', hfused', hd'⟩ := runWith_alike hfuel (read .statements)
    (⟨rfl, rfl, rfl⟩ : c'.Alike c') hfused
  have hend' : d'.rest = [] := hd'.rest.trans (hd.rest.trans hend)
  have hrun' : (programAfter before).runWith (readGoal (fuelFor code'.length - depth)) c' =
      .done _ d' := run_programAfter_eq_done.mpr ⟨_, hfused', hend', rfl⟩
  unfold parse?
  rw [harrives', hrun']
  have hcover' : ¬ Node.hasKind .coverInitializer (.branch .program (before ++
      declarationOf w name count [.leaf .token (count + 2) ['='], value₀] ending₀ :: more₀)) = true := by
    simpa [Node.hasKind, anyHasKind_eq_any, declarationOf, and_assoc] using hcover
  dsimp only
  rw [if_neg hcover']
  refine ⟨_, rfl, ?_⟩
  -- without the places it does not matter that the leaves of one tree were in theirs
  have hplaced : ∀ n : Node, (n.located e.starts).located #[] = n.located #[] :=
    unplaced_located e.starts
  rw [unplaced_located, ← hmap, List.map_append, List.take_left' (List.length_map _)]
  simp [Node.unplaced, Node.located, allLocated_eq_map, declarationOf, hplaced, Function.comp_def]

end Packwright.Syntax
