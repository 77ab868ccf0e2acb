import Packwright.Text.Digit
import Packwright.Text.Printable

/-!
# Quoted texts

A text as a reader of a log sees it inside a list or a message: between quotes, with what cannot
be shown written as an escape.

* Single quotes are used unless the text holds one and holds no double quote (`quoteFor`).
* The backslash, the quote in use and the three common controls have short escapes; any other
  character that is not printable is written by its number in two, four or eight digits.
-/

namespace Packwright.Text

def quoteFor (s : List Char) : Char :=
  if s.contains '\'' && !s.contains '"' then '"' else '\''

/-- How one character is written between the given quotes. -/
def quotedChar (quote c : Char) : List Char :=
  if c = quote ∨ c = '\\' then ['\\', c]
  else if c = '\t' then ['\\', 't']
  else if c = '\n' then ['\\', 'n']
  else if c = '\r' then ['\\', 'r']
  else if isPrintable c then [c]
  else if c.toNat < 0x100 then '\\' :: 'x' :: hexDigits 2 c.toNat
  else if c.toNat < 0x10000 then '\\' :: 'u' :: hexDigits 4 c.toNat
  else '\\' :: 'U' :: hexDigits 8 c.toNat

/-- The text between quotes. -/
def quotedChars (s : List Char) : List Char :=
  let quote := quoteFor s
  quote :: s.flatMap (quotedChar quote) ++ [quote]

def quoted (s : String) : String :=
  String.ofList (quotedChars s.toList)

end Packwright.Text
