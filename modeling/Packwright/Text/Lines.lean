/-!
# Lines and separators

Texts are cut in three ways: at every occurrence of one separator, into newline-terminated lines
with an unterminated rest, and at every line break of Unicode, each piece keeping its break.

* `splitOn` inverts joining with the separator (`joinWith_splitOn`).
* `newlineLines` loses nothing (`newlineLines_append`), nor does `pieces` (`flatten_pieces`).
* `unifyNewlines` turns a carriage return, alone or before a newline, into a newline.
-/

namespace Packwright.Text

/-- The pieces between the occurrences of a separator; there is always at least one. -/
def splitOn {α : Type} [DecidableEq α] (sep : α) : List α → List (List α)
  | [] => [[]]
  | c :: rest =>
    if c = sep then [] :: splitOn sep rest
    else match splitOn sep rest with
      | [] => [[c]]
      | piece :: more => (c :: piece) :: more

/-- The pieces, in order, with a separator between neighbours. -/
def joinWith {α : Type} (sep : α) : List (List α) → List α
  | [] => []
  | [piece] => piece
  | piece :: more => piece ++ sep :: joinWith sep more

theorem splitOn_ne_nil {α : Type} [DecidableEq α] (sep : α) (s : List α) :
    splitOn sep s ≠ [] := by
  cases s with
  | nil => simp [splitOn]
  | cons c rest =>
    simp only [splitOn]
    split
    · simp
    · split <;> simp

/-- Joining the pieces with the separator gives the text back. -/
theorem joinWith_splitOn {α : Type} [DecidableEq α] (sep : α) (s : List α) :
    joinWith sep (splitOn sep s) = s := by
  induction s with
  | nil => rfl
  | cons c rest ih =>
    simp only [splitOn]
    cases hs : splitOn sep rest with
    | nil => exact absurd hs (splitOn_ne_nil sep rest)
    | cons piece more =>
      rw [hs] at ih
      split
      · rename_i hc; subst hc
        simp only [joinWith, List.nil_append, ih]
      · cases more with
        | nil => simp only [joinWith] at ih ⊢; rw [ih]
        | cons q qs => simp only [joinWith, List.cons_append] at ih ⊢; rw [ih]

/-- The newline-terminated lines, without their newlines, and the rest that no newline ends. -/
def newlineLines : List Char → List (List Char) × List Char
  | [] => ([], [])
  | c :: rest =>
    let (lines, tail) := newlineLines rest
    if c = '\n' then ([] :: lines, tail)
    else match lines with
      | [] => ([], c :: tail)
      | line :: more => ((c :: line) :: more, tail)

/-- The lines with their newlines, and the rest after them, make up the text. -/
theorem newlineLines_append (s : List Char) :
    ((newlineLines s).1.map (· ++ ['\n'])).flatten ++ (newlineLines s).2 = s := by
  induction s with
  | nil => rfl
  | cons c rest ih =>
    simp only [newlineLines]
    split
    · rename_i hc; subst hc
      simp only [List.map_cons, List.flatten_cons, List.nil_append, List.cons_append]
      rw [ih]
    · split
      · rename_i hl
        rw [hl] at ih
        simp only [List.map_nil, List.flatten_nil, List.nil_append] at ih ⊢
        rw [ih]
      · rename_i line more hl
        rw [hl] at ih
        simp only [List.map_cons, List.flatten_cons, List.cons_append] at ih ⊢
        rw [ih]

/-- Whether a character ends a line in Unicode's sense. -/
def isLineBreak (c : Char) : Bool :=
  (0x0a ≤ c.toNat && c.toNat ≤ 0x0d) || (0x1c ≤ c.toNat && c.toNat ≤ 0x1e) ||
  c.toNat == 0x85 || c.toNat == 0x2028 || c.toNat == 0x2029

/-- The lines of a text, each with the break that ends it; a carriage return and the newline after
it are one break. -/
def pieces : List Char → List (List Char)
  | [] => []
  | '\r' :: '\n' :: rest => ['\r', '\n'] :: pieces rest
  | c :: rest =>
    if isLineBreak c then [c] :: pieces rest
    else match pieces rest with
      | [] => [[c]]
      | line :: more => (c :: line) :: more

/-- The pieces make up the text. -/
theorem flatten_pieces (s : List Char) : (pieces s).flatten = s := by
  fun_induction pieces s with
  | case1 => rfl
  | case2 rest ih => simp [ih]
  | case3 c rest _ _ ih => simp [ih]
  | case4 c rest _ _ hn ih => rw [hn] at ih; simp at ih ⊢; exact ih
  | case5 c rest _ _ line more hl ih => rw [hl] at ih; simp at ih ⊢; exact ih

/-- The text with every line end of the three usual kinds written as a newline. -/
def unifyNewlines : List Char → List Char
  | [] => []
  | '\r' :: '\n' :: rest => '\n' :: unifyNewlines rest
  | c :: rest => (if c = '\r' then '\n' else c) :: unifyNewlines rest

end Packwright.Text
