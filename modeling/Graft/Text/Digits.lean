import Graft.Text.Basic

/-
Digits of a text.

  `hexDigit? c`            the value of a hexadecimal digit;
  `Text.signed t`          what follows a sign, and whether it is a minus;
  `Text.digitsValue b t`   the value of the digits of a text to a base;
  `Text.digitLimit`        how many decimal digits of a whole number are read.
-/
namespace Graft

def hexDigit? (c : Char) : Option Nat :=
  if '0' ≤ c ∧ c ≤ '9' then some (c.toNat - '0'.toNat)
  else if 'a' ≤ c ∧ c ≤ 'f' then some (c.toNat - 'a'.toNat + 10)
  else if 'A' ≤ c ∧ c ≤ 'F' then some (c.toNat - 'A'.toNat + 10)
  else none

namespace Text

/-- What follows a sign, and whether it is a minus. -/
def signed : Text → Bool × Text
  | '-' :: cs => (true, cs)
  | '+' :: cs => (false, cs)
  | t => (false, t)

/-- The value of the digits of a text to a base; what is no digit is left out. -/
def digitsValue (base : Nat) (t : Text) : Nat :=
  (t.filterMap hexDigit?).foldl (fun n d => base * n + d) 0

/-- The number of decimal digits in a text. -/
def digitCount (t : Text) : Nat := t.countP Char.isDigit

/-- How many decimal digits of a whole number are read. -/
def digitLimit : Nat := 4300

/-- The message for a whole number of too many digits. -/
def digitLimitMessage (count : Nat) : Text :=
  "Exceeds the limit (".toList ++ decimal digitLimit ++
    " digits) for integer string conversion: value has ".toList ++ decimal count ++
    " digits; use sys.set_int_max_str_digits() to increase the limit".toList

end Text
end Graft
