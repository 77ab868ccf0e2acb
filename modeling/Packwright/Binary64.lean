/-!
# Double-precision numbers

Numbers of documents and messages, as exact values: a sign, a mantissa and a power of two. Both
directions between text and number are exact arithmetic on naturals.

* `ofRatio` rounds a fraction to the nearest number, a tie to the even mantissa.
* `shortest?` finds the fewest decimal digits that round to a number, and of those digits the
  nearest; `digits` always succeeds, since seventeen digits are enough.
* `Layout` says how the digits are laid out; `plain` is the layout of every printed number.
-/

namespace Packwright

/-- A double-precision number. A finite one is `mantissa * 2 ^ exponent` with its sign; the
mantissa has at most fifty-three bits. -/
inductive Binary64 where
  | finite (negative : Bool) (mantissa : Nat) (exponent : Int)
  | infinite (negative : Bool)
  | nan
  deriving Repr, DecidableEq, Inhabited

namespace Binary64

-- powers are those of the core library, whatever other instances are in scope
attribute [local instance (high)] instPowNat

/-! ## Rounding a fraction -/

/-- The nearest natural to a fraction; a tie goes to the even one. -/
def roundDiv (num den : Nat) : Nat :=
  let q := num / den
  let r := num % den
  if 2 * r < den then q
  else if den < 2 * r then q + 1
  else if q % 2 = 0 then q else q + 1

/-- The fraction `num / den / 2 ^ e`. -/
def scaleBinary (num den : Nat) (e : Int) : Nat × Nat :=
  if e < 0 then (num * 2 ^ (-e).toNat, den) else (num, den * 2 ^ e.toNat)

/-- The fraction `num / den / 10 ^ e`. -/
def scaleDecimal (num den : Nat) (e : Int) : Nat × Nat :=
  if e < 0 then (num * 10 ^ (-e).toNat, den) else (num, den * 10 ^ e.toNat)

/-- The exponent that gives a positive fraction a mantissa of fifty-three bits. -/
def binade (num den : Nat) : Int :=
  let e : Int := (Nat.log2 num : Int) - Nat.log2 den - 53
  let (n, d) := scaleBinary num den e
  if n / d < 2 ^ (53 : Nat) then e else e + 1

def minExponent : Int := -1074

def maxExponent : Int := 971

def zero (negative : Bool) : Binary64 :=
  finite negative 0 minExponent

/-- The number nearest to a fraction. -/
def ofRatio (negative : Bool) (num den : Nat) : Binary64 :=
  if num = 0 then zero negative
  else
    let e := max (binade num den) minExponent
    let (n, d) := scaleBinary num den e
    let m := roundDiv n d
    let (m, e) := if m = 2 ^ (53 : Nat) then (2 ^ (52 : Nat), e + 1) else (m, e)
    if m = 0 then zero negative
    else if maxExponent < e then infinite negative
    else finite negative m e

def digitCount (n : Nat) : Nat :=
  (Nat.toDigits 10 n).length

/-- The number nearest to `digits * 10 ^ exponent`. Magnitudes far outside the range are settled
without forming the power. -/
def ofDecimal (negative : Bool) (digits : Nat) (exponent : Int) : Binary64 :=
  if digits = 0 then zero negative
  else if 310 < exponent then infinite negative
  else if exponent + digitCount digits < -330 then zero negative
  else
    let (n, d) := scaleDecimal digits 1 (-exponent)
    ofRatio negative n d

/-! ## The fewest digits that read back -/

def ratio (m : Nat) (e : Int) : Nat × Nat :=
  scaleBinary m 1 (-e)

/-- The number of zeros after the point before the first digit of a fraction below one. -/
def leadingZeros : (fuel : Nat) → Nat → Nat → Nat
  | 0, _, _ => 0
  | fuel + 1, num, den => if den ≤ num * 10 then 0 else leadingZeros fuel (num * 10) den + 1

/-- The position of the point behind the first digit: `10 ^ (k - 1) ≤ num / den < 10 ^ k`. -/
def pointPosition (num den : Nat) : Int :=
  if den ≤ num then digitCount (num / den) else -(leadingZeros 400 num den : Int)

/-- The multiple of a power of ten that is nearest to the number and reads back as it, if one of
its two neighbours on that grid does. -/
def onGrid? (m : Nat) (e : Int) (grid : Int) : Option (Nat × Int) :=
  let (num, den) := ratio m e
  let (n, d) := scaleDecimal num den grid
  let near := roundDiv n d
  let other := if near = n / d then near + 1 else n / d
  let readsBack (digits : Nat) : Bool := ofDecimal false digits grid == finite false m e
  if readsBack near then some (near, grid)
  else if readsBack other then some (other, grid)
  else none

/-- Tries grids of more and more digits. -/
def shortest? (m : Nat) (e : Int) (point : Int) : (tries : Nat) → (count : Nat) → Option (Nat × Int)
  | 0, _ => none
  | tries + 1, count =>
    match onGrid? m e (point - count) with
    | some found => some found
    | none => shortest? m e point tries (count + 1)

/-- Moves trailing zeros of the digits into the exponent. -/
def dropZeros : (fuel : Nat) → Nat → Int → Nat × Int
  | 0, digits, exponent => (digits, exponent)
  | fuel + 1, digits, exponent =>
    if digits % 10 = 0 ∧ digits ≠ 0 then dropZeros fuel (digits / 10) (exponent + 1)
    else (digits, exponent)

/-- The shortest decimal digits and exponent of a positive finite number. -/
def digits (m : Nat) (e : Int) : Nat × Int :=
  let (num, den) := ratio m e
  let (ds, ex) := (shortest? m e (pointPosition num den) 17 1).getD (num / den, 0)
  dropZeros 20 ds ex

/-! ## Layout -/

/-- How digits become text: the greatest number of digits before the point and of zeros after it
that are written out, the least width of an exponent, and the words for what is not finite. -/
structure Layout where
  maxWhole : Int
  maxZeros : Int
  exponentWidth : Nat
  infinityText : String
  nanText : String

/-- Positional from a ten-thousandth up to sixteen digits, otherwise an exponent of at least two
digits with its sign. -/
def plain : Layout := ⟨16, 3, 2, "inf", "nan"⟩

def padZeros (width : Nat) (s : List Char) : List Char :=
  List.replicate (width - s.length) '0' ++ s

/-- The digits laid out, `point` of them before the point. -/
def layout (style : Layout) (ds : List Char) (point : Int) : List Char :=
  if -style.maxZeros ≤ point ∧ point ≤ style.maxWhole then
    if point ≤ 0 then '0' :: '.' :: List.replicate (-point).toNat '0' ++ ds
    else if ds.length ≤ point.toNat then
      ds ++ List.replicate (point.toNat - ds.length) '0' ++ ['.', '0']
    else ds.take point.toNat ++ '.' :: ds.drop point.toNat
  else
    -- one digit in front of the point, and the exponent says where it belongs
    let fraction := match ds.drop 1 with
      | [] => []
      | more => '.' :: more
    let e := point - 1
    let sign := if e < 0 then '-' else '+'
    ds.take 1 ++ fraction ++
      'e' :: sign :: padZeros style.exponentWidth (Nat.toDigits 10 e.natAbs)

/-- The text of a number. -/
def render (style : Layout) : Binary64 → String
  | nan => style.nanText
  | infinite negative => (if negative then "-" else "") ++ style.infinityText
  | finite negative m e =>
    let body :=
      if m = 0 then ['0', '.', '0']
      else
        let (ds, ex) := digits m e
        let text := Nat.toDigits 10 ds
        layout style text (text.length + ex)
    String.ofList (if negative then '-' :: body else body)

end Binary64

end Packwright
