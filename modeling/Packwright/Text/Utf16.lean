import Packwright.Text.Utf8

/-!
# UTF-16 code units

Columns of a source map count the code units of UTF-16: a character beyond the first plane counts
twice. Lengths are additive, so the column of a place is the length of what stands before it on
its line.
-/

namespace Packwright.Text.Utf16

-- sums start at the zero of the core library, whatever other instances are in scope
attribute [local instance (high)] Zero.ofOfNat0

def charUnits (c : Char) : Nat :=
  if c.toNat < 0x10000 then 1 else 2

def units (s : List Char) : Nat :=
  (s.map charUnits).sum

/-- The number of code units of the text that some bytes encode; a faulty stretch counts as one
replacement character. -/
def unitsOfBytes (bytes : List UInt8) : Nat :=
  units (Utf8.decodeLenient bytes)

theorem charUnits_pos (c : Char) : 0 < charUnits c := by
  unfold charUnits; split <;> omega

/-- The two code units of a character beyond the first plane. -/
def surrogates (c : Char) : Nat × Nat :=
  let n := c.toNat - 0x10000
  (0xd800 + n / 0x400, 0xdc00 + n % 0x400)

def isHighSurrogate (unit : Nat) : Bool :=
  0xd800 ≤ unit && unit < 0xdc00

def isLowSurrogate (unit : Nat) : Bool :=
  0xdc00 ≤ unit && unit < 0xe000

/-- The character that a pair of code units stands for. -/
def ofSurrogates (high low : Nat) : Char :=
  Char.ofNat (0x10000 + (high - 0xd800) * 0x400 + (low - 0xdc00))

/-- The character of a code unit; a lone surrogate is replaced. -/
def unitChar (unit : Nat) : Char :=
  if isHighSurrogate unit || isLowSurrogate unit then '\uFFFD' else Char.ofNat unit

end Packwright.Text.Utf16
