import Packwright.Json.Reader
import Packwright.Proofs.Value

/-!
# Numbers that are too long to read

An integer of too many digits is a fault, and so is every document in which it comes first: a
table whose first field holds it, or holds such a table.
-/

namespace Packwright.Json

open Packwright.Text

variable {limit? : Option Nat}

/-! ## Texts and spaces -/

/-- Whether a character stands for itself inside a text. -/
def isVerbatim (c : Char) : Bool :=
  c != '"' && c != '\\' && 0x20 ≤ c.toNat

/-- A character that stands for itself is read as it is. -/
theorem readTextFrom_verbatim {start rest : List Char} {c : Char} (h : isVerbatim c = true)
    (fuel : Nat) :
    readTextFrom start (fuel + 1) (c :: rest) =
      (readTextFrom start fuel rest).map fun found => (c :: found.1, found.2) := by
  obtain ⟨⟨hquote, hback⟩, hshown⟩ : (c ≠ '"' ∧ c ≠ '\\') ∧ 0x20 ≤ c.toNat := by
    simpa [isVerbatim] using h
  have hcontrol : ¬ c.toNat < 0x20 := by omega
  conv => lhs; unfold readTextFrom
  simp only [if_neg hquote, if_neg hback, if_neg hcontrol, Bind.bind, Except.bind]
  cases readTextFrom start fuel rest <;> rfl

/-- A text without escapes is read as it stands. -/
theorem readText_append {s : List Char} (hs : s.all isVerbatim = true)
    (rest : List Char) : readText (s ++ '"' :: rest) = .ok (String.ofList s, rest) := by
  -- the reader has fuel for each character and one more for the closing mark
  have hfrom : ∀ (start : List Char) (fuel : Nat), s.length < fuel →
      readTextFrom start fuel (s ++ '"' :: rest) = .ok (s, rest) := by
    intro start
    induction s with
    | nil =>
      intro fuel hfuel
      obtain ⟨more, rfl⟩ : ∃ more, fuel = more + 1 := ⟨fuel - 1, by simp at hfuel; omega⟩
      simp [readTextFrom]
    | cons c more ih =>
      intro fuel hfuel
      rw [List.length_cons] at hfuel
      obtain ⟨less, rfl⟩ : ∃ less, fuel = less + 1 := ⟨fuel - 1, by omega⟩
      rw [List.all_cons, Bool.and_eq_true] at hs
      obtain ⟨hc, hmore⟩ := hs
      rw [List.cons_append, readTextFrom_verbatim hc, ih hmore less (by omega)]
      rfl
  unfold readText
  rw [hfrom _ _ (by rw [List.length_append]; omega)]
  rfl

/-- At a character that is no space nothing is skipped. -/
theorem skipSpace_cons {c : Char} (h : isSpace c = false) (s : List Char) :
    skipSpace (c :: s) = c :: s := by
  rw [skipSpace, List.dropWhile_cons, h]
  rfl

/-! ## Faults that come first -/

/-- A fault of the value of its first field is one of the table. -/
theorem readValue_first_field {key s : List Char} {fault : Fault} {fuel : Nat}
    (hkey : key.all isVerbatim = true)
    (hs : skipSpace s = s) (h : readValue limit? fuel s = .error fault) :
    readValue limit? (fuel + 2) ('\x7b' :: '"' :: (key ++ '"' :: ':' :: ' ' :: s)) =
      .error fault := by
  have hfields : readFields limit? (fuel + 1) [] ('"' :: (key ++ '"' :: ':' :: ' ' :: s)) =
      .error fault := by
    -- neither the mark of the field nor its value has a space before it that matters
    have hcolon : skipSpace (':' :: ' ' :: s) = ':' :: ' ' :: s := skipSpace_cons (by decide) _
    have hskip : skipSpace (' ' :: s) = s := hs
    unfold readFields
    simp only [readText_append hkey, hcolon, hskip, h, Bind.bind, Except.bind]
  unfold readValue
  show (readFields limit? (fuel + 1) [] ('"' :: _) >>= _) = _
  rw [hfields]
  rfl

/-! ## Numbers -/

/-- A number starts with no zero, unless it is one. -/
theorem head?_toDigits {n : Nat} (h : 0 < n) : (Nat.toDigits 10 n).head? ≠ some '0' := by
  induction n using Nat.strongRecOn with
  | _ n ih =>
    rw [Nat.toDigits_eq_if (by decide)]
    split
    · rename_i hlt
      have hdigit : ∀ n < 10, 0 < n → [Nat.digitChar n].head? ≠ some '0' := by decide
      exact hdigit n hlt h
    · rename_i hge
      rw [List.head?_append, Option.or_of_isSome (by simp)]
      exact ih (n / 10) (by omega) (by omega)

/-- A digit is no space. -/
theorem isSpace_of_isDigit {d : Char} (hd : d.isDigit = true) : isSpace d = false := by
  rw [← Bool.not_eq_true]
  intro hspace
  simp only [isSpace, Bool.or_eq_true, beq_iff_eq, or_assoc] at hspace
  rcases hspace with rfl | rfl | rfl | rfl <;> exact absurd hd (by decide)

/-- All digits are taken, up to the first character that is none. -/
theorem takeDigits_append {ds rest : List Char} (hds : ∀ d ∈ ds, d.isDigit = true)
    (hrest : ∀ c ∈ rest.head?, c.isDigit = false) : takeDigits (ds ++ rest) = (ds, rest) := by
  rw [takeDigits, List.takeWhile_append_of_pos hds, List.dropWhile_append_of_pos hds]
  cases rest with
  | nil => simp
  | cons c rest =>
    have hc : c.isDigit = false := hrest c rfl
    simp [hc]

/-- So are those of a whole number that does not begin with a zero. -/
theorem takeWhole_append {ds rest : List Char} (hds : ∀ d ∈ ds, d.isDigit = true)
    (hhead : ds.head? ≠ some '0') (hrest : ∀ c ∈ rest.head?, c.isDigit = false) :
    takeWhole (ds ++ rest) = (ds, rest) := by
  unfold takeWhole
  split
  · rename_i more heq
    -- the first character is no zero
    cases ds with
    | nil => exact absurd (hrest '0' (by rw [← List.nil_append rest, heq]; rfl)) (by decide)
    | cons d ds => exact absurd (congrArg some (List.cons.inj heq).1) hhead
  · exact takeDigits_append hds hrest

/-- A number with more digits than the limit is refused, with its count. -/
theorem readNumber_tooManyDigits {limit : Nat} {ds : List Char} (hds : ∀ d ∈ ds, d.isDigit = true)
    (hhead : ds.head? ≠ some '0') (hlong : limit < ds.length) (rest : List Char) :
    readNumber (some limit) (ds ++ '\x7d' :: rest) = .error (.tooManyDigits ds.length) := by
  obtain ⟨d, more, rfl⟩ : ∃ d more, ds = d :: more :=
    List.exists_cons_of_ne_nil fun h => by simp [h] at hlong
  have hwhole : takeWhole (d :: more ++ '\x7d' :: rest) = (d :: more, '\x7d' :: rest) :=
    takeWhole_append hds hhead (by simp)
  have hsign : d ≠ '-' := by
    rintro rfl
    exact absurd (hds '-' List.mem_cons_self) (by decide)
  -- the brace ends the number, so it is a whole one, and only those are counted
  have hfraction : takeFraction ('\x7d' :: rest) = ([], '\x7d' :: rest) := rfl
  have hexponent : takeExponent? ('\x7d' :: rest) = none := rfl
  rw [List.cons_append] at hwhole ⊢
  simpa [readNumber, hsign, hwhole, hfraction, hexponent] using hlong

/-- No word starts with a digit. -/
theorem readWord?_of_isDigit {d : Char} (hd : d.isDigit = true) (s : List Char) :
    readWord? (d :: s) = none := by
  have hwords : ∀ p ∈ words, ∃ c more, p.1 = c :: more ∧ c.isDigit = false := by
    simp [words]
  refine List.findSome?_eq_none_iff.mpr fun p hp => ?_
  obtain ⟨c, more, hword, hc⟩ := hwords p hp
  have hne : (c == d) = false := by
    rw [beq_eq_false_iff_ne]
    rintro rfl
    exact absurd hd (by simp [hc])
  simp [hword, List.isPrefixOf, hne]

/-- A value that is no text, no list and no table is a word or a number. -/
theorem readValue_of_head {c : Char} (hquote : c ≠ '"') (hbrace : c ≠ '\x7b') (hbracket : c ≠ '[')
    (fuel : Nat) (s : List Char) :
    readValue limit? (fuel + 1) (c :: s) =
      match readWord? (c :: s) with
      | some found => .ok found
      | none => readNumber limit? (c :: s) := by
  conv => lhs; unfold readValue
  split <;> rename_i heq
  · exact absurd heq (by simp)
  · exact absurd (List.cons.inj heq).1 hquote
  · exact absurd (List.cons.inj heq).1 hbrace
  · exact absurd (List.cons.inj heq).1 hbracket
  · rfl

/-- A digit opens a number. -/
theorem readValue_of_isDigit {d : Char} (hd : d.isDigit = true) (fuel : Nat) (s : List Char) :
    readValue limit? (fuel + 1) (d :: s) = readNumber limit? (d :: s) := by
  have hne : ∀ c : Char, c.isDigit = false → d ≠ c := by
    rintro c hc rfl
    exact absurd hd (by simp [hc])
  rw [readValue_of_head (hne _ (by decide)) (hne _ (by decide)) (hne _ (by decide)),
    readWord?_of_isDigit hd]

/-- So the value is refused as well. -/
theorem readValue_tooManyDigits {limit : Nat} {ds : List Char} (hds : ∀ d ∈ ds, d.isDigit = true)
    (hhead : ds.head? ≠ some '0') (hlong : limit < ds.length) (fuel : Nat) (rest : List Char) :
    readValue (some limit) (fuel + 1) (ds ++ '\x7d' :: rest) = .error (.tooManyDigits ds.length) := by
  have hnumber := readNumber_tooManyDigits hds hhead hlong rest
  obtain ⟨d, more, rfl⟩ : ∃ d more, ds = d :: more :=
    List.exists_cons_of_ne_nil fun h => by simp [h] at hlong
  rw [List.cons_append, readValue_of_isDigit (hds d List.mem_cons_self)]
  exact hnumber

/-! ## Documents -/

/-- And the document that is this value. -/
theorem readWithin_tooManyDigits {s : List Char} {count : Nat} (hmark : s.head? ≠ some '\uFEFF')
    (hs : skipSpace s = s)
    (h : readValue limit? (2 * s.length + 2) s = .error (.tooManyDigits count)) :
    readWithin limit? (String.ofList s) = .error (.tooManyDigits count) := by
  have hdocument : readDocument limit? s = .error (.tooManyDigits count) := by
    unfold readDocument
    split
    · exact absurd rfl hmark
    · rw [hs, h]
      rfl
  unfold readWithin
  rw [String.toList_ofList, hdocument]
  rfl

end Packwright.Json
