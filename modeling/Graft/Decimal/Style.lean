import Graft.Decimal.Shortest
import Graft.Text.Basic

/-
How a floating-point number is written.

Its shortest decimal is written positionally, with at least one digit after the point, when the
first digit stands for a power of ten from `10 ^ -4` to `10 ^ 15`; otherwise one digit stands before
the point and the power follows as `e`, a sign and at least two digits.

  `Decimal.Style`          the spellings of infinity and of no number;
  `Decimal.Style.render`   a number in that style.
-/
namespace Graft.Decimal

/-- The spellings that have no digits. -/
structure Style where
  infinite : Text
  -- The spelling of what is no number.
  undefined : Text

/-- Removes the trailing zeros of a digit string. -/
def significant (ds : Text) : Text := Text.trimRight (· == '0') ds

/-- Digits with the decimal point after the first `point` of them, filled up with zeros. -/
def positional (ds : Text) (point : Int) : Text :=
  if point ≤ 0 then "0.".toList ++ List.replicate (-point).toNat '0' ++ ds
  else
    let n := point.toNat
    let whole := ds.take n ++ List.replicate (n - ds.length) '0'
    let rest := ds.drop n
    whole ++ ['.'] ++ (if rest.isEmpty then ['0'] else rest)

/-- Digits with one of them before the point, and a power of ten. -/
def scientific (ds : Text) (power : Int) : Text :=
  let mantissa :=
    match ds with
    | [] => ['0']
    | [d] => [d]
    | d :: rest => d :: '.' :: rest
  mantissa ++ ['e', if power < 0 then '-' else '+'] ++ Text.padded 2 power.natAbs

def Digits.render (x : Digits) : Text :=
  let ds := Text.decimal x.digits
  let point := (ds.length : Int) + x.exponent
  let ds := significant ds
  if -4 < point && point ≤ 16 then positional ds point else scientific ds (point - 1)

def Style.render (s : Style) (f : Float) : Text :=
  let bits := Bits.ofNat f.toBits.toNat
  let sign : Text := if bits.negative then ['-'] else []
  if bits.isSpecial then
    if bits.fraction = 0 then sign ++ s.infinite else s.undefined
  else
    match Binary.ofBits bits with
    | none => sign ++ "0.0".toList
    | some b => sign ++ b.shortest.render

def Style.plain : Style := ⟨"inf".toList, "nan".toList⟩

/-- The number nearest to `digits * 10 ^ exponent`; powers beyond the range of a double need no
exact arithmetic. -/
def nearest (digits : Nat) (exponent : Int) : Float :=
  let size := ((Nat.toDigits 10 digits).length : Int)
  if digits = 0 then 0
  else if 310 < size + exponent then 1 / 0
  else if size + exponent < -330 then 0
  else if 0 ≤ exponent then Float.ofScientific digits false exponent.toNat
  else Float.ofScientific digits true (-exponent).toNat

end Graft.Decimal
