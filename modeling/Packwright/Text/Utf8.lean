import Packwright.Text.Digit

/-!
# UTF-8

Texts as bytes and bytes as texts. Reading is strict or lenient: strict reading names the first
fault, lenient reading puts the replacement character in place of every faulty stretch.

* `readUnit` looks at the head of the bytes only: it yields a character and its width, or a fault
  and the width of the stretch it spoils. The stretch is the longest head of a well-formed
  sequence, and one byte when there is none.
* `decode` and `decodeLenient` repeat `readUnit`; both consume at least one byte a step.
* `encode` is the library's own encoding of a character, character by character.
-/

namespace Packwright.Text.Utf8

-- sums and powers are those of the core library, whatever other instances are in scope
attribute [local instance (high)] Zero.ofOfNat0 instPowNat

def encodeChars (s : List Char) : List UInt8 :=
  s.flatMap String.utf8EncodeChar

def encode (s : String) : List UInt8 :=
  encodeChars s.toList

/-- The number of bytes of a text. -/
def size (s : List Char) : Nat :=
  (s.map Char.utf8Size).sum

theorem length_encodeChars (s : List Char) : (encodeChars s).length = size s := by
  induction s with
  | nil => rfl
  | cons c rest ih =>
    simp only [encodeChars, List.flatMap_cons, List.length_append, size, List.map_cons,
      List.sum_cons] at ih ⊢
    rw [ih, String.length_utf8EncodeChar]

/-- What is wrong with a stretch of bytes. -/
inductive Fault where
  | invalidStart
  | invalidContinuation
  | unexpectedEnd
  deriving Repr, DecidableEq

def Fault.reason : Fault → String
  | .invalidStart => "invalid start byte"
  | .invalidContinuation => "invalid continuation byte"
  | .unexpectedEnd => "unexpected end of data"

/-- The head of a list of bytes. -/
inductive Reading where
  | char (c : Char) (width : Nat)
  | faulty (fault : Fault) (width : Nat)
  deriving Repr, DecidableEq

/-- The range of the second byte after a given first byte; it excludes overlong forms, surrogates
and what lies beyond the last code point. -/
def secondRange (first : UInt8) : UInt8 × UInt8 :=
  if first == 0xe0 then (0xa0, 0xbf)
  else if first == 0xed then (0x80, 0x9f)
  else if first == 0xf0 then (0x90, 0xbf)
  else if first == 0xf4 then (0x80, 0x8f)
  else (0x80, 0xbf)

/-- How many bytes follow a first byte, if it starts a sequence. -/
def followers? (first : UInt8) : Option Nat :=
  if first < 0x80 then some 0
  else if first < 0xc2 then none
  else if first < 0xe0 then some 1
  else if first < 0xf0 then some 2
  else if first < 0xf5 then some 3
  else none

/-- Reads the bytes that follow: `code` is what has been read so far and `width` its length. -/
def readFollowers (lo hi : UInt8) (code width : Nat) : Nat → List UInt8 → Reading
  | 0, _ => .char (Char.ofNat code) width
  | _ + 1, [] => .faulty .unexpectedEnd width
  | n + 1, b :: rest =>
    if lo ≤ b && b ≤ hi then
      readFollowers 0x80 0xbf (code * 64 + (b.toNat - 0x80)) (width + 1) n rest
    else .faulty .invalidContinuation width

/-- The character or the fault at the head of the bytes `first :: rest`. -/
def readUnit (first : UInt8) (rest : List UInt8) : Reading :=
  match followers? first with
  | none => .faulty .invalidStart 1
  | some n =>
    let (lo, hi) := secondRange first
    let payload := if n = 0 then first.toNat else first.toNat % 2 ^ (6 - n)
    readFollowers lo hi payload 1 n rest

/-- A faulty stretch in its place: the fault, the offset of the stretch and its bytes. -/
structure DecodeError where
  fault : Fault
  offset : Nat
  stretch : List UInt8
  deriving Repr, DecidableEq

/-- The message names the byte, or the span when there is more than one. -/
def DecodeError.message (e : DecodeError) : String :=
  match e.stretch with
  | [b] =>
    s!"'utf-8' codec can't decode byte 0x" ++ String.ofList (hexDigits 2 b.toNat) ++
      s!" in position {e.offset}: " ++ e.fault.reason
  | bytes =>
    s!"'utf-8' codec can't decode bytes in position {e.offset}-{e.offset + bytes.length - 1}: " ++
      e.fault.reason

/-- Strict reading with explicit fuel; the number of bytes is enough. -/
def decodeFrom : (fuel : Nat) → (offset : Nat) → List UInt8 → Except DecodeError (List Char)
  | 0, _, _ => .ok []
  | _, _, [] => .ok []
  | fuel + 1, offset, b :: rest =>
    match readUnit b rest with
    | .char c width => (decodeFrom fuel (offset + width) (rest.drop (width - 1))).map (c :: ·)
    | .faulty fault width => .error ⟨fault, offset, (b :: rest).take width⟩

def decodeChars (bytes : List UInt8) : Except DecodeError (List Char) :=
  decodeFrom bytes.length 0 bytes

def decode (bytes : List UInt8) : Except DecodeError String :=
  (decodeChars bytes).map String.ofList

/-- Lenient reading with explicit fuel; the number of bytes is enough. -/
def decodeLenientFrom : (fuel : Nat) → List UInt8 → List Char
  | 0, _ => []
  | _, [] => []
  | fuel + 1, b :: rest =>
    match readUnit b rest with
    | .char c width => c :: decodeLenientFrom fuel (rest.drop (width - 1))
    | .faulty _ width => '\uFFFD' :: decodeLenientFrom fuel (rest.drop (width - 1))

/-- The text that the bytes encode, with a replacement character for every faulty stretch. -/
def decodeLenient (bytes : List UInt8) : List Char :=
  decodeLenientFrom bytes.length bytes

end Packwright.Text.Utf8
