import Packwright.Text.Utf16

/-!
# The encoding of a document

A document that may come in several encodings tells its own by where the zero bytes among its first
four are, because it starts with characters below U+0080. A line that is well-formed UTF-8 holds
zero bytes only for the character U+0000, so an ordinary line is taken as it is.

* `ofStart` tells the encoding.
* `decodeLine?` reads a line anew in the encoding that it tells.
-/

namespace Packwright.Text

/-- The encodings of a document. -/
inductive Encoding where
  | utf8
  | utf16 (bigEndian : Bool)
  | utf32 (bigEndian : Bool)
  deriving Repr, DecidableEq

namespace Encoding

/-- The encoding of a document that starts with some bytes, or consists of them. -/
def ofStart : List UInt8 → Encoding
  | a :: b :: c :: d :: _ =>
    if a = 0 then (if b = 0 then utf32 true else utf16 true)
    else if b = 0 then (if c = 0 && d = 0 then utf32 false else utf16 false)
    else utf8
  | [a, b] => if a = 0 then utf16 true else if b = 0 then utf16 false else utf8
  | _ => utf8

def number (bigEndian : Bool) (bytes : List UInt8) : Nat :=
  (if bigEndian then bytes else bytes.reverse).foldl (fun n b => n * 256 + b.toNat) 0

/-- The numbers of two bytes each. -/
def pairs? (bigEndian : Bool) : List UInt8 → Option (List Nat)
  | [] => some []
  | a :: b :: rest => (pairs? bigEndian rest).map (number bigEndian [a, b] :: ·)
  | _ => none

/-- The numbers of four bytes each. -/
def fours? (bigEndian : Bool) : List UInt8 → Option (List Nat)
  | [] => some []
  | a :: b :: c :: d :: rest => (fours? bigEndian rest).map (number bigEndian [a, b, c, d] :: ·)
  | _ => none

/-- The characters of code units. -/
def ofUnits : List Nat → List Char
  | high :: low :: rest =>
    if Utf16.isHighSurrogate high && Utf16.isLowSurrogate low then
      Utf16.ofSurrogates high low :: ofUnits rest
    else Utf16.unitChar high :: ofUnits (low :: rest)
  | [unit] => [Utf16.unitChar unit]
  | [] => []

def ofPoints? (codes : List Nat) : Option (List Char) :=
  if codes.all (· < 0x110000) then some (codes.map Utf16.unitChar) else none

/-- The characters that some bytes other than UTF-8 encode. -/
def decode? : Encoding → List UInt8 → Option (List Char)
  | utf8, bytes => (Utf8.decodeChars bytes).toOption
  | utf16 bigEndian, bytes => (pairs? bigEndian bytes).map ofUnits
  | utf32 bigEndian, bytes => (fours? bigEndian bytes).bind ofPoints?

/-- Drops a byte order mark. -/
def dropMark : List Char → List Char
  | '\uFEFF' :: rest => rest
  | s => s

/-- A line in the encoding that it tells; UTF-8 may be marked as such. -/
def decodeLine? (line : List Char) : Option (List Char) :=
  match ofStart (Utf8.encodeChars (line.take 5)) with
  | utf8 => some (dropMark line)
  | encoding => encoding.decode? (Utf8.encodeChars line)

end Encoding

end Packwright.Text
