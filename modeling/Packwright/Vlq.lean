/-!
# Variable-length quantities in base 64

The fields of a source map segment are integers, each written as a group of base 64 digits: five
bits a digit, lowest first, with a sixth bit on every digit but the last. The lowest bit of the
whole is the sign.

* `encode` writes each integer as its shortest group, so a group never ends in a zero digit unless
  it is a single zero.
* `decode` reads groups until the digits end; an incomplete group at the end is dropped.
-/

namespace Packwright.Vlq

def alphabet : List Char :=
  "ABCDEFGHIJKLMNOPQRSTUVWXYZabcdefghijklmnopqrstuvwxyz0123456789+/".toList

/-- The digit of a value below sixty-four. -/
def digitChar (value : Nat) : Char :=
  if value < 26 then Char.ofNat (65 + value)
  else if value < 52 then Char.ofNat (97 + (value - 26))
  else if value < 62 then Char.ofNat (48 + (value - 52))
  else if value = 62 then '+'
  else '/'

/-- The value of a digit. -/
def digitValue? (c : Char) : Option Nat :=
  if 'A' ≤ c ∧ c ≤ 'Z' then some (c.toNat - 65)
  else if 'a' ≤ c ∧ c ≤ 'z' then some (c.toNat - 97 + 26)
  else if '0' ≤ c ∧ c ≤ '9' then some (c.toNat - 48 + 52)
  else if c = '+' then some 62
  else if c = '/' then some 63
  else none

/-- A character that is no base 64 digit. -/
structure UnknownDigit where
  digit : Char
  deriving Repr, DecidableEq

/-- An integer with its sign moved to the lowest bit. -/
def zigzag (i : Int) : Nat :=
  if i < 0 then 2 * i.natAbs + 1 else 2 * i.natAbs

/-- The integer whose sign is the lowest bit; a negative zero is zero. -/
def unzigzag (n : Nat) : Int :=
  if n % 2 = 1 then -((n / 2 : Nat) : Int) else ((n / 2 : Nat) : Int)

/-- The group of a natural number, lowest five bits first. -/
def group (n : Nat) : List Char :=
  if n < 32 then [digitChar n] else digitChar (n % 32 + 32) :: group (n / 32)
termination_by n
decreasing_by omega

def encodeChars (values : List Int) : List Char :=
  values.flatMap fun i => group (zigzag i)

def encode (values : List Int) : String :=
  String.ofList (encodeChars values)

/-- Reads the rest of the digits: `value` is what the open group has so far and `weight` the value
of one in its next digit. -/
def decodeFrom (value weight : Nat) : List Char → Except UnknownDigit (List Int)
  | [] => .ok []
  | c :: rest =>
    match digitValue? c with
    | none => .error ⟨c⟩
    | some digit =>
      if digit < 32 then
        (decodeFrom 0 1 rest).map (unzigzag (value + digit * weight) :: ·)
      else decodeFrom (value + (digit - 32) * weight) (weight * 32) rest

def decodeChars (digits : List Char) : Except UnknownDigit (List Int) :=
  decodeFrom 0 1 digits

def decode (segment : String) : Except UnknownDigit (List Int) :=
  decodeChars segment.toList

theorem digitValue?_digitChar {value : Nat} (h : value < 64) :
    digitValue? (digitChar value) = some value := by
  have table : ∀ v : Fin 64, digitValue? (digitChar v) = some v.val := by decide
  exact table ⟨value, h⟩

theorem unzigzag_zigzag (i : Int) : unzigzag (zigzag i) = i := by
  unfold unzigzag zigzag
  split <;> split <;> omega

end Packwright.Vlq
