/-!
# Blank characters

Two notions of blank: the white space of every script, which trims generated code, and the six
ASCII blanks, which trim a line of bytes.

* `isAsciiBlank` and `isBlank` are the two notions; the second is the wider one.
* `dropTrailing` removes the longest tail that satisfies a test.
-/

namespace Packwright.Text

def isAsciiBlank (c : Char) : Bool :=
  c == ' ' || (0x09 ≤ c.toNat && c.toNat ≤ 0x0d)

/-- White space of every script, with the ASCII separators 1c to 1f. -/
def isBlank (c : Char) : Bool :=
  let n := c.toNat
  (0x09 ≤ n && n ≤ 0x0d) || (0x1c ≤ n && n ≤ 0x20) || n == 0x85 || n == 0xa0 || n == 0x1680 ||
  (0x2000 ≤ n && n ≤ 0x200a) || n == 0x2028 || n == 0x2029 || n == 0x202f || n == 0x205f ||
  n == 0x3000

/-- The list without the longest tail whose elements all satisfy a test. -/
def dropTrailing {α : Type} (p : α → Bool) : List α → List α
  | [] => []
  | c :: rest =>
    match dropTrailing p rest with
    | [] => if p c then [] else [c]
    | kept => c :: kept

def trim {α : Type} (p : α → Bool) (s : List α) : List α :=
  dropTrailing p (s.dropWhile p)

theorem dropTrailing_concat {α : Type} {p : α → Bool} {d : α} (hd : p d = false) (s : List α) :
    dropTrailing p (s ++ [d]) = s ++ [d] := by
  induction s with
  | nil => simp [dropTrailing, hd]
  | cons c rest ih =>
    rw [List.cons_append, dropTrailing, ih]
    cases rest <;> rfl

/-- Nothing is removed from what neither begins nor ends with such an element. -/
theorem trim_eq_self {α : Type} {p : α → Bool} {c d : α} (hc : p c = false) (hd : p d = false)
    (s : List α) : trim p (c :: s ++ [d]) = c :: s ++ [d] := by
  have hdrop : (c :: s ++ [d]).dropWhile p = c :: s ++ [d] :=
    List.dropWhile_cons_of_neg (by simp [hc])
  rw [trim, hdrop, dropTrailing_concat hd]

end Packwright.Text
