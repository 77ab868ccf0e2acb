import Packwright.Proofs.Syntax.Probe
import Packwright.Proofs.Text.Utf8
import Packwright.Syntax.Sighting
import Packwright.Syntax.Weave

/-!
# Reading over woven comments

A cursor in a program and a cursor in the same program with comments woven in are `Woven` if they
stand before the same token. What is read from there is the same as long as no sighting has a marked
place inside: probes give the same answers (`answer_weaveBehind`), tokens have the same characters
(`Woven.takeRaw?`), and blanks are passed over up to the same token (`Woven.skip`).
-/

namespace Packwright.Syntax

open Packwright.Text

variable {comment : Comment} {marked marked' : Nat → Bool}

/-! ## Woven texts -/

/-- Woven text is the comment, if there is one in front, and the text with comments behind its first
character. -/
theorem weave_eq (comment : Comment) (marked : Nat → Bool) (offset : Nat) (s : List Char) :
    weave comment marked offset s =
      (if marked offset ∧ s ≠ [] then comment.text else []) ++ weaveBehind comment marked offset s := by
  cases s with
  | nil => simp [weave, weaveBehind]
  | cons c rest =>
    rw [weave, weaveBehind]
    simp

/-- Nothing inside of some characters is marked. -/
def Unbroken (marked : Nat → Bool) (offset : Nat) (s : List Char) : Prop :=
  ∀ place, marked place = true → ¬(offset < place ∧ place < offset + Utf8.size s)

/-- A stretch with nothing marked inside stays together, and what follows is woven by itself.
Induction on the stretch. -/
theorem weaveBehind_append (comment : Comment) {offset : Nat} {a : List Char} (b : List Char)
    (hne : a ≠ []) (h : Unbroken marked offset a) :
    weaveBehind comment marked offset (a ++ b) =
      a ++ weave comment marked (offset + Utf8.size a) b := by
  induction a generalizing offset with
  | nil => exact absurd rfl hne
  | cons c a ih =>
    rw [List.cons_append, weaveBehind, List.cons_append, Utf8.size_cons, ← Nat.add_assoc]
    congr 1
    cases a with
    | nil => rw [List.nil_append, List.nil_append, Utf8.size_nil, Nat.add_zero]
    | cons d a =>
      have hpos := c.utf8Size_pos
      have hpos' := d.utf8Size_pos
      unfold Unbroken at h
      rw [Utf8.size_cons, Utf8.size_cons] at h
      -- a mark right behind the first character would be inside of the stretch
      have hunmarked : ¬ (marked (offset + c.utf8Size) = true ∧ (d :: a) ++ b ≠ []) := fun hm =>
        h _ hm.1 (by omega)
      have hrest : Unbroken marked (offset + c.utf8Size) (d :: a) := fun place hplace hin =>
        h place hplace (by rw [Utf8.size_cons] at hin; omega)
      rw [weave_eq, if_neg hunmarked, List.nil_append, ih (by simp) hrest]

/-- A stretch that is not marked at its start either stays where it is. -/
theorem weave_append (comment : Comment) {offset : Nat} {a : List Char} (b : List Char)
    (h : ∀ place, marked place = true → ¬(offset ≤ place ∧ place < offset + Utf8.size a)) :
    weave comment marked offset (a ++ b) =
      a ++ weave comment marked (offset + Utf8.size a) b := by
  cases a with
  | nil => rw [List.nil_append, List.nil_append, Utf8.size_nil, Nat.add_zero]
  | cons c a =>
    have hpos := c.utf8Size_pos
    have hfirst : ¬ marked offset = true := fun hm =>
      h offset hm ⟨Nat.le_refl _, by rw [Utf8.size_cons]; omega⟩
    have hinside : Unbroken marked offset (c :: a) := fun place hm hin =>
      h place hm ⟨Nat.le_of_lt hin.1, hin.2⟩
    rw [weave_eq, if_neg fun hm => hfirst hm.1, List.nil_append]
    exact weaveBehind_append comment b (by simp) hinside

/-- Two stretches of a text are woven one after the other. -/
theorem weave_split (comment : Comment) (marked : Nat → Bool) (offset : Nat) (a b : List Char) :
    weave comment marked offset (a ++ b) =
      weave comment marked offset a ++ weave comment marked (offset + Utf8.size a) b := by
  induction a generalizing offset with
  | nil => rfl
  | cons c a ih =>
    rw [List.cons_append, weave, weave, ih, Utf8.size_cons, Nat.add_assoc, List.append_assoc,
      List.cons_append]

/-- What is woven into a text depends on where its marks are within it, not on where it starts. -/
theorem weave_shift (comment : Comment) {offset offset' : Nat} (s : List Char)
    (h : ∀ k < Utf8.size s, marked (offset + k) = marked' (offset' + k)) :
    weave comment marked offset s = weave comment marked' offset' s := by
  induction s generalizing offset offset' with
  | nil => rfl
  | cons c s ih =>
    have hpos := c.utf8Size_pos
    rw [Utf8.size_cons] at h
    have hfirst : marked offset = marked' offset' := h 0 (by omega)
    rw [weave, weave, hfirst, ih fun k hk => ?_]
    rw [Nat.add_assoc, Nat.add_assoc]
    exact h (c.utf8Size + k) (by omega)

/-- Only marks from the start of a text on matter to it. -/
theorem weave_congr (comment : Comment) {offset : Nat} (s : List Char)
    (h : ∀ place, offset ≤ place → marked place = marked' place) :
    weave comment marked offset s = weave comment marked' offset s :=
  weave_shift comment s fun k _ => h (offset + k) (Nat.le_add_right offset k)

/-- Only marks behind the start of a text matter behind its first character. -/
theorem weaveBehind_congr (comment : Comment) {offset : Nat} (s : List Char)
    (h : ∀ place, offset < place → marked place = marked' place) :
    weaveBehind comment marked offset s = weaveBehind comment marked' offset s := by
  cases s with
  | nil => rfl
  | cons c s =>
    have hpos := c.utf8Size_pos
    rw [weaveBehind, weaveBehind, weave_congr comment s fun place hle => h place (by omega)]

/-- Without a mark nothing is woven in. -/
theorem weave_of_unmarked (comment : Comment) {offset : Nat} (s : List Char)
    (h : ∀ place, offset ≤ place → marked place = false) : weave comment marked offset s = s := by
  have hnone : ∀ place, marked place = true → ¬(offset ≤ place ∧ place < offset + Utf8.size s) := by
    intro place hm hin
    rw [h place hin.1] at hm
    exact absurd hm (by simp)
  have happ := weave_append comment [] hnone
  rw [List.append_nil] at happ
  rw [happ, weave, List.append_nil]

/-- Either nothing behind the first character is marked, or the first comment behind it starts
beyond every stretch that is unbroken. -/
theorem weaveBehind_cases (comment : Comment) (marked : Nat → Bool) (offset : Nat) (s : List Char) :
    weaveBehind comment marked offset s = s ∨
      ∃ a b t, s = a ++ b ∧ a ≠ [] ∧ b ≠ [] ∧ marked (offset + Utf8.size a) = true ∧
        weaveBehind comment marked offset s = a ++ '/' :: '*' :: t := by
  induction s generalizing offset with
  | nil => exact .inl rfl
  | cons c rest ih =>
    rw [weaveBehind, weave_eq]
    by_cases hm : marked (offset + c.utf8Size) = true ∧ rest ≠ []
    · have hplace : marked (offset + Utf8.size [c]) = true := by simpa using hm.1
      -- the first comment stands right behind this character
      refine .inr ⟨[c], rest, comment.body ++ weaveBehind comment marked (offset + c.utf8Size) rest,
        rfl, by simp, hm.2, hplace, ?_⟩
      rw [if_pos hm]
      rfl
    · rw [if_neg hm, List.nil_append]
      rcases ih (offset + c.utf8Size) with hsame | ⟨a, b, t, rfl, ha, hb, hplace, hweave⟩
      · exact .inl (by rw [hsame])
      · refine .inr ⟨c :: a, b, t, rfl, by simp, hb, ?_, by rw [hweave, List.cons_append]⟩
        rw [Utf8.size_cons, ← Nat.add_assoc]
        exact hplace

/-- The first `n` characters are unbroken and a comment starts behind `a`, so `a` holds them. -/
theorem le_length_of_unbroken {offset n : Nat} {a b : List Char} (ha : a ≠ []) (hb : b ≠ [])
    (hm : marked (offset + Utf8.size a) = true)
    (h : Unbroken marked offset ((a ++ b).take n)) : n ≤ a.length := by
  refine Nat.le_of_not_lt fun hlt => h _ hm ?_
  obtain ⟨c, rest, rfl⟩ := List.exists_cons_of_ne_nil hb
  obtain ⟨k, hk⟩ := Nat.exists_eq_add_of_lt hlt
  have hsize : Utf8.size ((a ++ c :: rest).take n) =
      Utf8.size a + (c.utf8Size + Utf8.size (rest.take k)) := by
    rw [List.take_append, List.take_of_length_le (by omega), Utf8.size_append,
      show n - a.length = k + 1 by omega, List.take_succ_cons, Utf8.size_cons]
  have hpos := c.utf8Size_pos
  have hapos : 0 < Utf8.size a := Nat.pos_of_ne_zero fun hzero => ha (Utf8.eq_nil_of_size_eq_zero hzero)
  omega

/-- **Probes do not notice comments that are not inside of what they look at.** -/
theorem answer_weaveBehind {α : Type} (probe : Probe α) {offset : Nat} {s : List Char}
    (h : Unbroken marked (offset + Utf8.size (s.take (probe.lead s)))
      ((s.drop (probe.lead s)).take (probe.reach s - probe.lead s))) :
    probe.answer (weaveBehind comment marked offset s) = probe.answer s := by
  -- only the first comment counts: no probe reaches beyond its start
  rcases weaveBehind_cases comment marked offset s with hsame | ⟨a, b, t, rfl, ha, hb, hm, hweave⟩
  · rw [hsame]
  · rw [hweave]
    by_cases hlead : a.length ≤ probe.lead (a ++ b)
    · exact probe.answer_comment_lead t ha hlead
    · have hlt : probe.lead (a ++ b) < a.length := Nat.lt_of_not_le hlead
      have hreach := probe.lead_le_reach (a ++ b)
      generalize hn : probe.lead (a ++ b) = n at h hlt hreach
      rw [List.take_append_of_le_length (Nat.le_of_lt hlt),
        List.drop_append_of_le_length (Nat.le_of_lt hlt)] at h
      have hdrop : a.drop n ≠ [] := by
        refine List.length_pos_iff.mp ?_
        rw [List.length_drop]
        omega
      have hplace : marked (offset + Utf8.size (a.take n) + Utf8.size (a.drop n)) = true := by
        rw [Nat.add_assoc, ← Utf8.size_append, List.take_append_drop]
        exact hm
      have hle := le_length_of_unbroken hdrop hb hplace h
      rw [List.length_drop] at hle
      exact probe.answer_comment t ha hb (by omega)

/-- How long a blank is does not depend on comments that are not inside of what is looked at for it. -/
theorem blankLength_weaveBehind {offset : Nat} {s : List Char}
    (h : Unbroken marked offset (s.take (Lexeme.blankReach s))) :
    Lexeme.blankLength (weaveBehind comment marked offset s) = Lexeme.blankLength s := by
  rcases weaveBehind_cases comment marked offset s with hsame | ⟨a, b, t, rfl, ha, hb, hm, hweave⟩
  · rw [hsame]
  · rw [hweave]
    exact Lexeme.blankLength_comment t ha hb (le_length_of_unbroken ha hb hm h)

/-- The front of unbroken characters is unbroken. -/
theorem Unbroken.mono {offset : Nat} {a b : List Char} (h : Unbroken marked offset (a ++ b)) :
    Unbroken marked offset a := by
  intro place hplace hin
  refine h place hplace ⟨hin.1, ?_⟩
  rw [Utf8.size_append]
  omega

/-- Fewer of some unbroken characters are unbroken. -/
theorem Unbroken.take_mono {offset m n : Nat} {s : List Char} (h : Unbroken marked offset (s.take n))
    (hle : m ≤ n) : Unbroken marked offset (s.take m) := by
  have hsplit := List.take_append_drop m (s.take n)
  rw [List.take_take, Nat.min_eq_left hle] at hsplit
  rw [← hsplit] at h
  exact h.mono

/-- Unbroken characters are there with the comments woven in, and the rest follows. -/
theorem weaveBehind_split (comment : Comment) {offset n : Nat} {s : List Char} (hn : 0 < n)
    (h : Unbroken marked offset (s.take n)) :
    (weaveBehind comment marked offset s).take n = s.take n ∧
      (weaveBehind comment marked offset s).drop n =
        weave comment marked (offset + Utf8.size (s.take n)) (s.drop n) := by
  cases hs : s with
  | nil => simp [weaveBehind, weave]
  | cons c rest =>
    rw [← hs]
    have hne : s.take n ≠ [] := by
      rw [hs]
      obtain ⟨k, rfl⟩ := Nat.exists_eq_succ_of_ne_zero (Nat.pos_iff_ne_zero.mp hn)
      simp
    have happ := weaveBehind_append comment (s.drop n) hne h
    rw [List.take_append_drop] at happ
    rw [happ]
    -- `n` may exceed the text, and then nothing follows
    by_cases hle : n ≤ s.length
    · have hlen : (s.take n).length = n := List.length_take_of_le hle
      constructor
      · rw [List.take_append_of_le_length (by omega), List.take_of_length_le (by omega)]
      · rw [List.drop_append_of_le_length (by omega), List.drop_of_length_le (by omega),
          List.nil_append]
    · have hall : s.take n = s := List.take_of_length_le (by omega)
      have hnone : s.drop n = [] := List.drop_of_length_le (by omega)
      rw [hall, hnone, weave, List.append_nil]
      exact ⟨hall, hnone⟩

/-! ## Cursors -/

/-- Nothing marked is inside of a sighting. -/
def Unseen (marked : Nat → Bool) (spans : List Span) : Prop :=
  ∀ span ∈ spans, ∀ place, marked place = true → ¬ span.covers place

theorem unseen_cons {span : Span} {spans : List Span} : Unseen marked (span :: spans) ↔
    (∀ place, marked place = true → ¬ span.covers place) ∧ Unseen marked spans :=
  List.forall_mem_cons

theorem unseen_append {spans spans' : List Span} :
    Unseen marked (spans ++ spans') ↔ Unseen marked spans ∧ Unseen marked spans' :=
  List.forall_mem_append

/-- A cursor behind the woven comments where the other one is. -/
structure Woven (comment : Comment) (marked : Nat → Bool) (c d : Cursor) : Prop where
  rest : d.rest = weaveBehind comment marked c.offset c.rest
  lineEnded : d.lineEnded = c.lineEnded
  starts : d.starts.size = c.starts.size

/-- A cursor where the other one is, perhaps before a woven comment. -/
structure Facing (comment : Comment) (marked : Nat → Bool) (c d : Cursor) : Prop where
  rest : d.rest = weave comment marked c.offset c.rest
  lineEnded : d.lineEnded = c.lineEnded
  starts : d.starts.size = c.starts.size

namespace Cursor

/-- At the end of everything there is nothing to pass over. -/
theorem skipFrom_nil {c : Cursor} (h : c.rest = []) (fuel : Nat) : skipFrom fuel c = c := by
  cases fuel with
  | zero => rfl
  | succ fuel =>
    rw [skipFrom, h]
    rfl

theorem length_passBlank (c : Cursor) (n : Nat) :
    (c.passBlank n).rest.length = c.rest.length - n :=
  List.length_drop

/-- The fuel of `skipFrom` makes no difference as long as there is one unit for each character: each
blank has one character at least. -/
theorem skipFrom_eq_of_le {fuel fuel' : Nat} {c : Cursor} (h : c.rest.length ≤ fuel)
    (h' : c.rest.length ≤ fuel') : skipFrom fuel c = skipFrom fuel' c := by
  induction fuel generalizing fuel' c with
  | zero =>
    have hrest := List.length_eq_zero_iff.mp (Nat.le_zero.mp h)
    rw [skipFrom_nil hrest, skipFrom_nil hrest]
  | succ fuel ih =>
    cases fuel' with
    | zero =>
      have hrest := List.length_eq_zero_iff.mp (Nat.le_zero.mp h')
      rw [skipFrom_nil hrest, skipFrom_nil hrest]
    | succ fuel' =>
      have hlen := length_passBlank c (Lexeme.blankLength c.rest)
      rw [skipFrom, skipFrom]
      split
      · exact ih (by omega) (by omega)
      · rfl

/-- **Passing over blanks, one blank at a time**: the equation that `skip` is used by, without its
fuel. -/
theorem skip_eq (c : Cursor) :
    c.skip = if 0 < Lexeme.blankLength c.rest then (c.passBlank (Lexeme.blankLength c.rest)).skip
      else c := by
  have hstep : c.skip = skipFrom (c.rest.length + 1) c := skipFrom_eq_of_le (Nat.le_refl _) (by omega)
  have hlen := length_passBlank c (Lexeme.blankLength c.rest)
  rw [hstep, skipFrom]
  split
  · exact skipFrom_eq_of_le (by omega) (Nat.le_refl _)
  · rfl

/-- The fuel of `skipSightingsFrom` makes no difference either, if it exceeds the number of
characters. -/
theorem skipSightingsFrom_eq_of_lt {fuel fuel' : Nat} {c : Cursor} (h : c.rest.length < fuel)
    (h' : c.rest.length < fuel') : skipSightingsFrom fuel c = skipSightingsFrom fuel' c := by
  induction fuel generalizing fuel' c with
  | zero => exact absurd h (Nat.not_lt_zero _)
  | succ fuel ih =>
    cases fuel' with
    | zero => exact absurd h' (Nat.not_lt_zero _)
    | succ fuel' =>
      have hlen := length_passBlank c (Lexeme.blankLength c.rest)
      rw [skipSightingsFrom, skipSightingsFrom]
      cases hrest : c.rest with
      | nil => rfl
      | cons e rest =>
        rw [← hrest]
        have hpos : 0 < c.rest.length := by
          rw [hrest]
          exact Nat.succ_pos _
        split
        · exact congrArg (c.span (Lexeme.blankReach c.rest) :: ·) (ih (by omega) (by omega))
        · rfl

/-- What is looked at to pass over blanks, one blank at a time: the equation that goes along with
`skip_eq`. -/
theorem skipSightings_eq (c : Cursor) :
    c.skipSightings = c.span (Lexeme.blankReach c.rest) ::
      if 0 < Lexeme.blankLength c.rest then (c.passBlank (Lexeme.blankLength c.rest)).skipSightings
      else [] := by
  have hlen := length_passBlank c (Lexeme.blankLength c.rest)
  rw [skipSightings, skipSightingsFrom]
  cases hrest : c.rest with
  | nil => rfl
  | cons e rest =>
    rw [← hrest]
    have hpos : 0 < c.rest.length := by
      rw [hrest]
      exact Nat.succ_pos _
    split
    · rw [skipSightings, skipSightingsFrom_eq_of_lt (by omega) (Nat.lt_succ_self _)]
    · rfl

end Cursor

/-! ## Steps of a cursor -/

/-- A stretch that no mark is inside of is unbroken; the two are the same notion for a cursor and
for characters. -/
theorem unbroken_of_unseen {c : Cursor} {n : Nat}
    (h : ∀ place, marked place = true → ¬ (c.span n).covers place) :
    Unbroken marked c.offset (c.rest.take n) :=
  h

/-- Passing over characters that are unbroken: the same ones are passed over, and behind them may
stand a comment. -/
theorem Woven.advance {c d : Cursor} (hw : Woven comment marked c d) {n : Nat} (hn : 0 < n)
    (h : ∀ place, marked place = true → ¬ (c.span n).covers place) :
    d.rest.take n = c.rest.take n ∧ Facing comment marked (c.advance n) (d.advance n) := by
  obtain ⟨htake, hdrop⟩ := weaveBehind_split comment hn (unbroken_of_unseen h)
  rw [← hw.rest] at htake hdrop
  exact ⟨htake, hdrop, hw.lineEnded, hw.starts⟩

/-- A woven comment is one blank, and it ends where its text does. -/
theorem blankLength_comment_text (comment : Comment) (s : List Char) :
    Lexeme.blankLength (comment.text ++ s) = comment.text.length := by
  have htake : (comment.text ++ s).take 2 = ['/', '*'] := rfl
  have hdrop : (comment.text ++ s).drop 2 = comment.body ++ s := rfl
  rw [Lexeme.blankLength, htake, hdrop, if_neg (by decide), if_pos rfl, comment.closed s]
  rfl

/-- A cursor that may stand before a comment passes over it. -/
theorem Facing.exists_woven {c d : Cursor} (hf : Facing comment marked c d) :
    ∃ e, Woven comment marked c e ∧ d.skip = e.skip := by
  have hrest := hf.rest
  rw [weave_eq] at hrest
  split at hrest
  · refine ⟨d.passBlank comment.text.length, ⟨?_, ?_, hf.starts⟩, ?_⟩
    · show d.rest.drop comment.text.length = _
      rw [hrest, List.drop_left]
    · show (d.lineEnded || (d.rest.take comment.text.length).any Lexeme.isLineEnd) = _
      -- the comment has no line end, so none is reported for it
      have hone : comment.text.any Lexeme.isLineEnd = false := by
        show (Lexeme.isLineEnd '/' || (Lexeme.isLineEnd '*' || comment.body.any _)) = false
        rw [comment.oneLine]
        rfl
      rw [hrest, List.take_left, hone, Bool.or_false, hf.lineEnded]
    · have hpos : 0 < comment.text.length := Nat.succ_pos _
      rw [Cursor.skip_eq, hrest, blankLength_comment_text, if_pos hpos]
  · exact ⟨d, ⟨hrest, hf.lineEnded, hf.starts⟩, rfl⟩

/-- A blank is looked at as a whole. -/
theorem blankLength_le_blankReach (s : List Char) : Lexeme.blankLength s ≤ Lexeme.blankReach s := by
  unfold Lexeme.blankLength Lexeme.blankReach
  by_cases hline : s.take 2 = ['/', '/']
  · rw [if_pos hline, if_pos hline]
    omega
  by_cases hblock : s.take 2 = ['/', '*']
  · rw [if_neg hline, if_neg hline, if_pos hblock, if_pos hblock]
    cases Lexeme.blockLength? (s.drop 2) with
    | none => exact Nat.zero_le _
    | some n => exact Nat.le_refl _
  · rw [if_neg hline, if_neg hline, if_neg hblock, if_neg hblock]
    split <;> split <;> omega

/-- **Passing over blanks ends before the same token.** -/
theorem Woven.skip {c d : Cursor} (hw : Woven comment marked c d)
    (h : Unseen marked c.skipSightings) : Woven comment marked c.skip d.skip := by
  induction hlen : c.rest.length using Nat.strongRecOn generalizing c d with
  | ind length ih =>
    rw [Cursor.skipSightings_eq, unseen_cons] at h
    obtain ⟨hfirst, hothers⟩ := h
    have hblank : Lexeme.blankLength d.rest = Lexeme.blankLength c.rest := by
      rw [hw.rest]
      exact blankLength_weaveBehind (unbroken_of_unseen hfirst)
    rw [Cursor.skip_eq c, Cursor.skip_eq d, hblank]
    by_cases hpos : 0 < Lexeme.blankLength c.rest
    · rw [if_pos hpos] at hothers ⊢
      rw [if_pos hpos]
      have hunbroken := (unbroken_of_unseen hfirst).take_mono (blankLength_le_blankReach c.rest)
      obtain ⟨htake, hf⟩ := hw.advance hpos hunbroken
      have hfacing : Facing comment marked (c.passBlank (Lexeme.blankLength c.rest))
          (d.passBlank (Lexeme.blankLength c.rest)) := by
        refine ⟨hf.rest, ?_, hf.starts⟩
        show (d.lineEnded || (d.rest.take _).any Lexeme.isLineEnd) = _
        rw [htake, hw.lineEnded]
        rfl
      -- the woven comment, if there is one, is one blank more
      obtain ⟨e, he, hskip⟩ := hfacing.exists_woven
      rw [hskip]
      have hshorter := Cursor.length_passBlank c (Lexeme.blankLength c.rest)
      have hnonempty : 0 < c.rest.length := by
        refine List.length_pos_iff.mpr fun hnil => ?_
        rw [hnil] at hpos
        exact absurd hpos (Nat.lt_irrefl 0)
      exact ih _ (by omega) he hothers rfl
    · rw [if_neg hpos, if_neg hpos]
      exact hw

/-- Passing over blanks takes the comment in front along, so the cursors stand before the same token
again. -/
theorem Facing.skip {c d : Cursor} (hf : Facing comment marked c d)
    (h : Unseen marked c.skipSightings) : Woven comment marked c.skip d.skip := by
  obtain ⟨e, he, hskip⟩ := hf.exists_woven
  rw [hskip]
  exact he.skip h

/-- Characters that are passed over without becoming a token, with the blanks behind them. -/
theorem Woven.pass {c d : Cursor} (hw : Woven comment marked c d) {n : Nat}
    (hspan : ∀ place, marked place = true → ¬ (c.span n).covers place)
    (h : Unseen marked (c.advance n).skipSightings) :
    Woven comment marked (c.advance n).skip (d.advance n).skip := by
  cases n with
  | zero =>
    have hstay : ∀ e : Cursor, e.advance 0 = e := fun e => by
      cases e
      rfl
    rw [hstay] at h ⊢
    rw [hstay]
    exact hw.skip h
  | succ n => exact (hw.advance (Nat.succ_pos n) hspan).2.skip h

/-- Whether a token can be taken does not depend on the comments, nor what it is. -/
theorem Woven.takeRaw? {c d : Cursor} (hw : Woven comment marked c d) (kind : Kind) {n : Nat}
    (h : ∀ place, marked place = true → ¬ (c.span n).covers place) :
    (c.takeRaw? kind n = none ∧ d.takeRaw? kind n = none) ∨
      ∃ leaf e f, c.takeRaw? kind n = some (leaf, e) ∧ d.takeRaw? kind n = some (leaf, f) ∧
        Facing comment marked e f := by
  unfold Cursor.takeRaw?
  by_cases hn : 0 < n
  · obtain ⟨htake, hf⟩ := hw.advance hn h
    have hlen : n ≤ d.rest.length ↔ n ≤ c.rest.length := by
      have hboth : (d.rest.take n).length = (c.rest.take n).length := by rw [htake]
      rw [List.length_take, List.length_take] at hboth
      omega
    by_cases hle : n ≤ c.rest.length
    · rw [if_pos ⟨hn, hle⟩, if_pos ⟨hn, hlen.mpr hle⟩, htake, hw.starts]
      refine .inr ⟨_, _, _, rfl, rfl, hf.rest, rfl, ?_⟩
      show (d.starts.push d.offset).size = (c.starts.push c.offset).size
      rw [Array.size_push, Array.size_push, hw.starts]
    · rw [if_neg fun hcond => hle hcond.2, if_neg fun hcond => hle (hlen.mp hcond.2)]
      exact .inl ⟨rfl, rfl⟩
  · rw [if_neg fun hcond => hn hcond.1, if_neg fun hcond => hn hcond.1]
    exact .inl ⟨rfl, rfl⟩

/-- Where a token ends that is looked at with the character behind it, nothing is marked. -/
theorem unmarked_of_takeRaw? {c e : Cursor} {kind : Kind} {n : Nat} {leaf : Node}
    (htake : c.takeRaw? kind n = some (leaf, e))
    (h : ∀ place, marked place = true → ¬ (c.span (n + 1)).covers place) (hne : e.rest ≠ []) :
    marked e.offset = false := by
  unfold Cursor.takeRaw? at htake
  split at htake
  · rename_i hcond
    obtain ⟨-, rfl⟩ := Prod.mk.inj (Option.some.inj htake)
    obtain ⟨x, rest, hrest⟩ := List.exists_cons_of_ne_nil hne
    have hdrop : c.rest.drop n = x :: rest := hrest
    have hsize : Utf8.size (c.rest.take (n + 1)) = Utf8.size (c.rest.take n) + x.utf8Size := by
      have hget : c.rest[n]? = some x := by
        rw [← List.head?_drop, hdrop]
        rfl
      rw [List.take_add_one, hget, Utf8.size_append]
      rfl
    have hpos : 0 < Utf8.size (c.rest.take n) := by
      refine Nat.pos_of_ne_zero fun hzero => ?_
      have hnil := congrArg List.length (Utf8.eq_nil_of_size_eq_zero hzero)
      rw [List.length_take_of_le hcond.2, List.length_nil] at hnil
      omega
    have hx := x.utf8Size_pos
    -- a mark there would be inside of the token and the character behind it
    refine Bool.eq_false_iff.mpr fun hm => h _ hm ⟨?_, ?_⟩
    · show c.offset < c.offset + Utf8.size (c.rest.take n)
      omega
    · show c.offset + Utf8.size (c.rest.take n) < c.offset + Utf8.size (c.rest.take (n + 1))
      omega
  · exact absurd htake (by simp)

/-- Where no mark is, the cursor stands before no comment. -/
theorem Facing.woven {c d : Cursor} (hf : Facing comment marked c d)
    (h : c.rest ≠ [] → marked c.offset = false) : Woven comment marked c d := by
  refine ⟨?_, hf.lineEnded, hf.starts⟩
  rw [hf.rest, weave_eq, if_neg, List.nil_append]
  rintro ⟨hm, hne⟩
  rw [h hne] at hm
  exact absurd hm (by simp)

end Packwright.Syntax
