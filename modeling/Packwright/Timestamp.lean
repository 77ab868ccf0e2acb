import Packwright.Binary64

/-!
# Time stamps

A moment in universal time as a log line writes it: date, the letter T, time of day with
milliseconds, and the letter Z.
-/

namespace Packwright

/-- A moment in universal time. -/
structure Timestamp where
  year : Nat
  month : Nat
  day : Nat
  hour : Nat
  minute : Nat
  second : Nat
  millisecond : Nat
  deriving Repr, DecidableEq

namespace Timestamp

def field (width n : Nat) : List Char :=
  Binary64.padZeros width (Nat.toDigits 10 n)

def render (t : Timestamp) : String :=
  String.ofList (field 4 t.year ++ '-' :: field 2 t.month ++ '-' :: field 2 t.day ++
    'T' :: field 2 t.hour ++ ':' :: field 2 t.minute ++ ':' :: field 2 t.second ++
    '.' :: field 3 t.millisecond ++ ['Z'])

end Timestamp

end Packwright
