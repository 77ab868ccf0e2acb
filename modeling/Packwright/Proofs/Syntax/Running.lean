import Packwright.Proofs.Syntax.Reading

/-!
# The reader at a known place

What the reader does is computed from what stands ahead of its cursor.

* Cursors are `Alike` if the same stands ahead of them and as many tokens are behind them. They read
  the same, since a scan sees nothing else (`runWith_alike`).
* `Cursor.At` says what stands ahead. `run_take` takes a token with the blanks behind it, and there
  is a lemma for each scan that such tokens are taken by.
-/

namespace Packwright.Syntax

open Lexeme

/-! ## Cursors that read alike -/

/-- A cursor from which everything is read as it is from the other one. -/
structure Cursor.Alike (c d : Cursor) : Prop where
  rest : d.rest = c.rest
  lineEnded : d.lineEnded = c.lineEnded
  starts : d.starts.size = c.starts.size

theorem Cursor.Alike.trans {c d e : Cursor} (hd : c.Alike d) (he : d.Alike e) : c.Alike e :=
  ⟨he.rest.trans hd.rest, he.lineEnded.trans hd.lineEnded, he.starts.trans hd.starts⟩

/-- Cursors read alike if nothing is woven in between them. -/
theorem alike_iff_woven (comment : Comment) {c d : Cursor} :
    c.Alike d ↔ Woven comment (fun _ => false) c d := by
  have hnothing : weaveBehind comment (fun _ => false) c.offset c.rest = c.rest := by
    cases c.rest with
    | nil => rfl
    | cons x rest => rw [weaveBehind, weave_of_unmarked comment rest fun _ _ => rfl]
  constructor
  · intro h
    refine ⟨?_, h.lineEnded, h.starts⟩
    rw [hnothing]
    exact h.rest
  · intro h
    refine ⟨?_, h.lineEnded, h.starts⟩
    rw [h.rest, hnothing]

theorem unseen_of_unmarked (spans : List Span) : Unseen (fun _ => false) spans :=
  fun _ _ _ hmarked => Bool.noConfusion hmarked

/-- **What is read depends on what stands ahead only**, and not on the fuel that is left over. -/
theorem runWith_alike {fuel fuel' : Nat} (hle : fuel ≤ fuel') {α : Type} (scan : Scan α)
    {c d e : Cursor} {value : α} (h : c.Alike d)
    (hrun : scan.runWith (readGoal fuel) c = .done value e) :
    ∃ e', scan.runWith (readGoal fuel') d = .done value e' ∧ e.Alike e' := by
  -- the two cursors are the two sides of a weaving that puts nothing in
  let comment : Comment := ⟨['*', '/'], fun _ => rfl, rfl⟩
  have hgoals : ∀ goal {c d : Cursor}, Woven comment (fun _ => false) c d →
      Unseen (fun _ => false) (goalSightings fuel goal c) →
      Mirrors comment (fun _ => false) (readGoal fuel goal c) (readGoal fuel' goal d) :=
    fun goal _ _ hw hseen => readGoal_mirrors hle goal hw hseen
  have hm := runWith_mirrors hgoals scan ((alike_iff_woven comment).mp h) (unseen_of_unmarked _)
  rw [hrun] at hm
  generalize scan.runWith (readGoal fuel') d = outcome at hm
  cases hm with
  | @done _ e' _ woven => exact ⟨e', rfl, (alike_iff_woven comment).mpr woven⟩

/-! ## Names, blanks and marks -/

/-- A name that can be declared. -/
structure Lexeme.IsName (s : List Char) : Prop where
  ne_nil : s ≠ []
  chars : s.all isNameChar = true
  first : s.head?.any Char.isDigit = false
  free : isReserved s = false

/-- What a name may stand before: no name goes on there, and no number. -/
def Lexeme.EndsName (s : List Char) : Prop :=
  namePartLength s = 0

/-- A backslash is no character of a name: it starts an escape. -/
theorem ne_backslash_of_isNameChar {c : Char} (h : isNameChar c = true) : c ≠ '\\' := by
  rintro rfl
  exact absurd h (by decide)

/-- A stretch of name characters is as long as it looks if a name ends behind it. -/
theorem nameTailLength_append {a s : List Char} (h : a.all isNameChar = true) (hs : EndsName s) :
    nameTailLength 0 (a ++ s) = a.length := by
  induction a with
  | nil =>
    cases s with
    | nil => rfl
    | cons c s =>
      rw [List.nil_append, nameTailLength, hs]
      rfl
  | cons c a ih =>
    rw [List.all_cons, Bool.and_eq_true] at h
    obtain ⟨hc, ha⟩ := h
    have hpart : namePartLength (c :: (a ++ s)) = 1 := by
      rw [namePartLength_of_ne (ne_backslash_of_isNameChar hc), if_pos hc]
    rw [List.cons_append, nameTailLength, hpart]
    exact congrArg (· + 1) (ih ha)

/-- **A name is read as the word that it is**, if a name ends behind it. -/
theorem take_nameLength_append {a s : List Char} (hne : a ≠ []) (h : a.all isNameChar = true)
    (hfirst : a.head?.any Char.isDigit = false) (hs : EndsName s) :
    (a ++ s).take (nameLength (a ++ s)) = a := by
  obtain ⟨c, rest, rfl⟩ := List.exists_cons_of_ne_nil hne
  have hdigit : c.isDigit = false := hfirst
  have hlength : nameLength (c :: (rest ++ s)) = (c :: rest).length := by
    rw [nameLength, hdigit, if_neg (by simp), ← List.cons_append, nameTailLength_append h hs]
  rw [List.cons_append, hlength, ← List.cons_append, List.take_left]

theorem isNameChar_of_isBlank {c : Char} (h : isBlank c = true) : isNameChar c = false := by
  rw [isNameChar, h]
  simp

/-- A name ends before a character that is none of a name and starts no escape. -/
theorem endsName_cons {c : Char} {s : List Char} (hc : isNameChar c = false) (hb : c ≠ '\\') :
    EndsName (c :: s) := by
  rw [EndsName, namePartLength_of_ne hb, hc]
  rfl

/-- A blank starts neither a comment nor an escape. -/
theorem ne_slash_of_isBlank {c : Char} (h : isBlank c = true) : c ≠ '/' ∧ c ≠ '\\' := by
  constructor <;> (rintro rfl; exact absurd h (by decide))

/-- Blanks may stand between a name and what ends it. -/
theorem endsName_append {blanks s : List Char} (hblanks : ∀ c ∈ blanks, isBlank c = true)
    (hs : EndsName s) : EndsName (blanks ++ s) := by
  cases blanks with
  | nil => exact hs
  | cons c rest =>
    have hc := hblanks c List.mem_cons_self
    exact endsName_cons (isNameChar_of_isBlank hc) (ne_slash_of_isBlank hc).2

/-- Where no blank and no comment starts. -/
def Lexeme.StartsToken (s : List Char) : Prop :=
  blankLength s = 0

/-- A token starts with any character that is no blank and no slash. -/
theorem startsToken_cons {c : Char} {s : List Char} (hc : isBlank c = false) (hslash : c ≠ '/') :
    StartsToken (c :: s) := by
  rw [StartsToken, blankLength_cons s hslash, hc]
  rfl

/-- A blank is passed over on its own, whatever follows. -/
theorem blankLength_blank {c : Char} {s : List Char} (hc : isBlank c = true) :
    blankLength (c :: s) = 1 := by
  rw [blankLength_cons s (ne_slash_of_isBlank hc).1, hc]
  rfl

/-! ## Taking a token and the blanks behind it -/

/-- Where a cursor is: what is ahead, whether a line has ended, and how many tokens are behind. -/
structure Cursor.At (s : List Char) (ended : Bool) (count : Nat) (c : Cursor) : Prop where
  rest : c.rest = s
  lineEnded : c.lineEnded = ended
  starts : c.starts.size = count

theorem Cursor.At.alike {s : List Char} {ended : Bool} {count : Nat} {c d : Cursor}
    (hc : c.At s ended count) (hd : d.At s ended count) : c.Alike d :=
  ⟨hd.rest.trans hc.rest.symm, hd.lineEnded.trans hc.lineEnded.symm,
    hd.starts.trans hc.starts.symm⟩

/-- **Blanks are passed over up to the token behind them**, and a line has ended if one does among
them. Induction on the blanks. -/
theorem Cursor.At.skip {blanks s : List Char} {ended : Bool} {count : Nat} {c : Cursor}
    (h : c.At (blanks ++ s) ended count) (hblanks : ∀ x ∈ blanks, isBlank x = true)
    (hs : StartsToken s) : c.skip.At s (ended || blanks.any isLineEnd) count := by
  induction blanks generalizing c ended with
  | nil =>
    have hrest : c.rest = s := h.rest
    rw [skip_eq, hrest, hs, if_neg (Nat.lt_irrefl 0), List.any_nil, Bool.or_false]
    exact h
  | cons x blanks ih =>
    have hrest : c.rest = x :: (blanks ++ s) := h.rest
    have hone : blankLength c.rest = 1 := by
      rw [hrest, blankLength_blank (hblanks x List.mem_cons_self)]
    have hnext : (c.passBlank 1).At (blanks ++ s) (ended || isLineEnd x) count := by
      refine ⟨?_, ?_, h.starts⟩
      · show c.rest.drop 1 = _
        rw [hrest]
        rfl
      · show (c.lineEnded || (c.rest.take 1).any isLineEnd) = _
        rw [hrest, h.lineEnded]
        simp
    rw [skip_eq, hone, if_pos Nat.one_pos, List.any_cons, ← Bool.or_assoc]
    exact ih hnext fun y hy => hblanks y (List.mem_cons_of_mem _ hy)

variable {calls : Goal → Cursor → Outcome (List Node)} {c : Cursor} {ended : Bool} {count : Nat}
  {s : List Char}

/-- A token is taken, and the cursor stands before the next one. -/
theorem run_take (calls : Goal → Cursor → Outcome (List Node))
    {token blanks : List Char} (kind : Kind)
    (hc : c.At (token ++ (blanks ++ s)) ended count) (hne : token ≠ [])
    (hblanks : ∀ x ∈ blanks, isBlank x = true) (hs : StartsToken s) :
    ∃ d, (Scan.take kind token.length).runWith calls c = .done (.leaf kind count token) d ∧
      d.At s (blanks.any isLineEnd) (count + 1) := by
  have hpos := List.length_pos_iff.mpr hne
  have hle : token.length ≤ c.rest.length := by
    rw [hc.rest, List.length_append]
    exact Nat.le_add_right _ _
  -- the token is there, so it can be taken, and the blanks behind it are passed over
  have htaken : c.takeRaw? kind token.length = some (.leaf kind count token,
      { c.advance token.length with lineEnded := false, starts := c.starts.push c.offset }) := by
    rw [Cursor.takeRaw?, if_pos ⟨hpos, hle⟩, hc.starts, hc.rest, List.take_left]
  have hbehind : Cursor.At (blanks ++ s) false (count + 1)
      { c.advance token.length with lineEnded := false, starts := c.starts.push c.offset } := by
    refine ⟨?_, rfl, ?_⟩
    · show c.rest.drop token.length = _
      rw [hc.rest, List.drop_left]
    · rw [Array.size_push, hc.starts]
  have hd := hbehind.skip hblanks hs
  rw [Bool.false_or] at hd
  refine ⟨_, ?_, hd⟩
  rw [Scan.runWith, htaken]

/-! ## Running scans -/

/-- Running one scan and then another. -/
theorem runWith_bind {α β : Type} (first : Scan α) (next : α → Scan β) (c : Cursor) :
    (first >>= next).runWith calls c =
      match first.runWith calls c with
      | .done value d => (next value).runWith calls d
      | .failed => .failed
      | .exhausted => .exhausted := by
  show (Scan.bind first next).runWith calls c = _
  cases hfirst : first.runWith calls c <;> simp only [Scan.runWith, hfirst]

/-- A scan that is done leaves the cursor alone. -/
theorem runWith_pure {α : Type} (value : α) (c : Cursor) :
    (pure value : Scan α).runWith calls c = .done value c := by
  show (Scan.done value).runWith calls c = _
  rw [Scan.runWith]

/-- **Two scans succeed one after the other** if the first one does and the second one does from
where the first one ended. This takes a reading apart. -/
theorem runWith_bind_eq_done {α β : Type} {first : Scan α} {next : α → Scan β} {c d : Cursor}
    {value : β} : (first >>= next).runWith calls c = .done value d ↔
      ∃ v e, first.runWith calls c = .done v e ∧ (next v).runWith calls e = .done value d := by
  rw [runWith_bind]
  cases first.runWith calls c with
  | done v e =>
    constructor
    · exact fun h => ⟨v, e, rfl, h⟩
    · rintro ⟨_, _, heq, h⟩
      cases heq
      exact h
  | failed => simp
  | exhausted => simp

/-- A first scan whose outcome is known. This puts a reading together. -/
theorem runWith_bind_of_done {α β : Type} {first : Scan α} {next : α → Scan β} {c d : Cursor}
    {value : α} (h : first.runWith calls c = .done value d) :
    (first >>= next).runWith calls c = (next value).runWith calls d := by
  rw [runWith_bind, h]

/-- One unit of fuel is spent on the goal itself, and the goals that it calls have what is left. -/
theorem readGoal_succ (fuel : Nat) (goal : Goal) (c : Cursor) :
    readGoal (fuel + 1) goal c = (Reader.ofGoal goal).runWith (readGoal fuel) c :=
  rfl

/-! ## Marks -/

theorem mark?_semicolon (s : List Char) : mark? (';' :: s) = some [';'] :=
  rfl

theorem mark?_opening (s : List Char) : mark? ('(' :: s) = some ['('] :=
  rfl

/-- The sign for a value is one unless it is the beginning of an equality or an arrow. -/
theorem mark?_equals {x : Char} (s : List Char) (h : x ≠ '=') (h' : x ≠ '>') :
    mark? ('=' :: x :: s) = some ['='] := by
  have hequality : ('=' == x) = false := beq_eq_false_iff_ne.mpr h.symm
  have harrow : ('>' == x) = false := beq_eq_false_iff_ne.mpr h'.symm
  simp [mark?, isChoiceOfFraction, punctuation, List.isPrefixOf, hequality, harrow]

/-! ## Scans at a known place -/

open Scan Reader

theorem run_head? (c : Cursor) : head?.runWith calls c = .done c.rest.head? c :=
  rfl

theorem run_word (c : Cursor) :
    word.runWith calls c = .done (c.rest.take (nameLength c.rest)) c :=
  rfl

theorem run_atWord (w : String) (c : Cursor) :
    (atWord w).runWith calls c = .done (c.rest.take (nameLength c.rest) == w.toList) c :=
  rfl

theorem run_at_ (m : String) (c : Cursor) :
    (at_ m).runWith calls c = .done ((mark? c.rest).getD [] == m.toList) c :=
  rfl

theorem run_read (goal : Goal) (c : Cursor) : (read goal).runWith calls c = calls goal c :=
  rfl

theorem run_node (kind : Kind) (parts : List Node) (c : Cursor) :
    (node kind parts).runWith calls c = .done (.branch kind parts) c :=
  rfl

/-- Where no markup comment is, none is skipped. -/
theorem run_skipMarkup (h : markupCommentLength c.rest = 0) :
    skipMarkup.runWith calls c = .done () c := by
  have hlook : (look Probe.markupComment).runWith calls c = .done 0 c := by
    rw [Scan.runWith, Probe.answer, h]
  rw [skipMarkup, runWith_bind_of_done hlook]
  rfl

theorem run_check {b : Bool} (h : b = true) (c : Cursor) :
    (check b).runWith calls c = .done () c := by
  rw [h]
  rfl

/-- A word is taken as a token, with the blanks behind it. -/
theorem run_keyword (calls : Goal → Cursor → Outcome (List Node))
    {w : String} {blanks : List Char} (kind : Kind)
    (hc : c.At (w.toList ++ (blanks ++ s)) ended count) (hne : w.toList ≠ [])
    (hword : c.rest.take (nameLength c.rest) = w.toList)
    (hblanks : ∀ x ∈ blanks, isBlank x = true) (hs : StartsToken s) :
    ∃ d, (keyword w kind).runWith calls c = .done (.leaf kind count w.toList) d ∧
      d.At s (blanks.any isLineEnd) (count + 1) := by
  obtain ⟨d, htake, hd⟩ := run_take calls kind hc hne hblanks hs
  refine ⟨d, ?_, hd⟩
  rw [keyword, runWith_bind_of_done (run_atWord w c),
    runWith_bind_of_done (run_check (by rw [hword, beq_self_eq_true]) c), ← String.length_toList]
  exact htake

/-- A mark is taken as a token, with the blanks behind it. -/
theorem run_sign (calls : Goal → Cursor → Outcome (List Node)) {m : String}
    {blanks : List Char}
    (hc : c.At (m.toList ++ (blanks ++ s)) ended count) (hne : m.toList ≠ [])
    (hmark : mark? c.rest = some m.toList)
    (hblanks : ∀ x ∈ blanks, isBlank x = true) (hs : StartsToken s) :
    ∃ d, (sign m).runWith calls c = .done (.leaf .token count m.toList) d ∧
      d.At s (blanks.any isLineEnd) (count + 1) := by
  obtain ⟨d, htake, hd⟩ := run_take calls .token hc hne hblanks hs
  refine ⟨d, ?_, hd⟩
  rw [sign, runWith_bind_of_done (run_at_ m c),
    runWith_bind_of_done (run_check (by rw [hmark, Option.getD_some, beq_self_eq_true]) c),
    ← String.length_toList]
  exact htake

/-- **A name that is bound** is taken as an identifier. A pattern would start with a bracket or a
brace. -/
theorem run_binding (calls : Goal → Cursor → Outcome (List Node))
    {name blanks : List Char} (hname : IsName name)
    (hc : c.At (name ++ (blanks ++ s)) ended count) (hends : EndsName (blanks ++ s))
    (hblanks : ∀ x ∈ blanks, isBlank x = true) (hs : StartsToken s) :
    ∃ d, binding.runWith calls c = .done (.leaf .identifier count name) d ∧
      d.At s (blanks.any isLineEnd) (count + 1) := by
  obtain ⟨d, htake, hd⟩ := run_take calls .identifier hc hname.ne_nil hblanks hs
  have hword : c.rest.take (nameLength c.rest) = name := by
    rw [hc.rest, take_nameLength_append hname.ne_nil hname.chars hname.first hends]
  obtain ⟨x, rest, rfl⟩ := List.exists_cons_of_ne_nil hname.ne_nil
  have hx := List.all_eq_true.mp hname.chars x List.mem_cons_self
  have hhead : c.rest.head? = some x := by
    rw [hc.rest]
    rfl
  -- a name starts no pattern
  have hplain : x ≠ '[' ∧ x ≠ '\x7b' := by
    constructor <;> (rintro rfl; exact absurd hx (by decide))
  have hrun : (Scan.name .identifier).runWith calls c =
      .done (.leaf .identifier count (x :: rest)) d := by
    rw [Scan.name, runWith_bind_of_done (run_word c), hword,
      runWith_bind_of_done (run_check (by rw [hname.free]; rfl) c)]
    exact htake
  refine ⟨d, ?_, hd⟩
  rw [binding, runWith_bind_of_done (run_head? c), hhead]
  split
  · rename_i heq
    exact absurd (Option.some.inj heq) hplain.1
  · rename_i heq
    exact absurd (Option.some.inj heq) hplain.2
  · exact hrun

/-- A goal that is to give one node. -/
theorem run_one {goal : Goal} {n : Node} {c d : Cursor} :
    (one goal).runWith calls c = .done n d ↔ calls goal c = .done [n] d := by
  rw [one, runWith_bind, run_read]
  cases calls goal c with
  | done ns e =>
    match ns with
    | [] => exact ⟨fun h => absurd h (by simp [failure, Scan.runWith]), fun h => by simp at h⟩
    | [m] => simp [runWith_pure]
    | m :: m' :: ns =>
      exact ⟨fun h => absurd h (by simp [failure, Scan.runWith]), fun h => by simp at h⟩
  | failed => simp
  | exhausted => simp

end Packwright.Syntax
