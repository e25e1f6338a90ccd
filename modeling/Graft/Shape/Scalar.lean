import Graft.Decimal.Style
import Graft.Shape
import Graft.Text.Digits
import Graft.Text.Space
import Graft.Yaml.Value

/-
Scalars of a shape.

  `Shape.textOf v`     the text in a value;
  `Shape.truthOf v`    the truth value in it;
  `Shape.wholeOf v`    the whole number in it;
  `Shape.numberOf v`   the number in it.

A number is also read from a text that spells it, a truth value from the numbers zero and one and
from a few words, and a whole number from a number without a fraction.  Of the numbers that are not
written as whole ones, those of 64 bits count as whole numbers.  Octets count as the text that they
encode.  A wide text that is no text is told to be none, whatever is expected.
-/
namespace Graft.Shape

open Yaml

/-- A blank around a number in a text. -/
def isOuterBlank (c : Char) : Bool := isSpace c && !(0x1C ≤ c.toNat && c.toNat ≤ 0x1F)

/-- Whether no underscore of a text stands at an end or beside another. -/
def hasInnerUnderscores (t : Text) : Bool := (t.splitOn '_').all fun part => !part.isEmpty

/-- The whole number that digits spell, the first of them not zero unless it is the only one; a
minus may stand in front. -/
def wholeOfDigits (t : Text) : Except Expectation Int :=
  let digits := if t.head? = some '-' then t.tail else t
  let first := digits.takeWhile Char.isDigit
  if digits = ['0'] then .ok 0
  else if first.isEmpty || first.head? = some '0' then .error .wholeText
  else if Text.digitLimit < first.length + (t.length - digits.length) then .error .wholeSize
  else if first.length < digits.length then .error .wholeText
  else
    let n : Int := Text.digitsValue 10 digits
    .ok (if t.head? = some '-' then -n else n)

/-- What follows a plus; no minus may. -/
def withoutPlus? : Text → Option Text
  | '+' :: '-' :: _ => none
  | '+' :: cs => some cs
  | t => some t

/-- A text that begins with a digit, without the zeros it begins with and the underscores among
them; the last of these stays when nothing or a point follows. -/
def withoutZeros? : Text → Option Text
  | [] => none
  | c :: cs =>
    if c = '0' then
      let zeros := (c :: cs).takeWhile fun d => d == '0' || d == '_'
      match (c :: cs).drop zeros.length with
      | [] => some (zeros.drop (zeros.length - 1))
      | '.' :: rest => some (zeros.drop (zeros.length - 1) ++ '.' :: rest)
      | rest => some rest
    else if c.isDigit then some (c :: cs)
    else none

/-- A text without zeros in front, whether or not a minus stands before them. -/
def withoutLeadingZeros? : Text → Option Text
  | '-' :: cs => (withoutZeros? cs).map ('-' :: ·)
  | t => withoutZeros? t

/-- A text without a point that only zeros follow. -/
def withoutFraction (t : Text) : Text :=
  let before := t.takeWhile (· != '.')
  let after := t.drop (before.length + 1)
  if !after.isEmpty && after.all (· == '0') then before else t

/-- A text without underscores between other characters. -/
def withoutUnderscores (t : Text) : Text :=
  if hasInnerUnderscores t then t.filter (· != '_') else t

/-- The whole number that a text spells.  Blanks around it, a plus, zeros in front, a fraction of
zeros and underscores do not count.  Only digits that stand without any of these can be too many. -/
def wholeOfText (t : Text) : Except Expectation Int :=
  match wholeOfDigits t with
  | .error .wholeText =>
    match (withoutPlus? (Text.trim isOuterBlank t)).bind withoutLeadingZeros? with
    | some t =>
      (wholeOfDigits (withoutUnderscores (withoutFraction t))).mapError fun _ => .wholeText
    | none => .error .wholeText
  | r => r

/-- The power of ten that a text ends with. -/
def powerOfText? : Text → Option Int
  | [] => some 0
  | e :: cs => do
    guard (e == 'e' || e == 'E')
    let (minus, digits) := Text.signed cs
    guard (!digits.isEmpty && digits.all Char.isDigit)
    let n := Text.digitsValue 10 digits
    return if minus then -(n : Int) else n

/-- The number of digits, a point and a power of ten. -/
def sizeOfText? (t : Text) : Option Float := do
  let before := t.takeWhile Char.isDigit
  let rest := t.drop before.length
  let (after, rest) : Text × Text :=
    match rest with
    | '.' :: cs => (cs.takeWhile Char.isDigit, cs.dropWhile Char.isDigit)
    | rest => ([], rest)
  guard (!(before.isEmpty && after.isEmpty))
  let power ← powerOfText? rest
  return Decimal.nearest (Text.digitsValue 10 (before ++ after)) (power - (after.length : Int))

/-- The number that a text spells, underscores not counted. -/
def plainNumberOfText? (t : Text) : Option Float :=
  let (minus, size) := Text.signed t
  let word := Text.lowerAscii size
  let f :=
    if word == "inf".toList || word == "infinity".toList then some (1 / 0)
    else if word == "nan".toList then some (0 / 0)
    else sizeOfText? size
  f.map fun f => if minus then -f else f

def numberOfText? (t : Text) : Option Float :=
  (plainNumberOfText? (Text.trim isOuterBlank t)).or <|
    if hasInnerUnderscores t then plainNumberOfText? (t.filter (· != '_')) else none

def trueWords : List Text := ["1", "on", "t", "true", "y", "yes"].map String.toList

def falseWords : List Text := ["0", "off", "f", "false", "n", "no"].map String.toList

/-- The whole number that a positive binary number is, if it is one. -/
def wholeOfBinary? (b : Decimal.Binary) : Option Nat :=
  if 0 ≤ b.exponent then some (b.mantissa * Decimal.twoTo b.exponent.toNat)
  else
    let unit := Decimal.twoTo (-b.exponent).toNat
    if b.mantissa % unit = 0 then some (b.mantissa / unit) else none

/-- The whole number that a floating-point number is, if it is one. -/
def wholeOfFloat? (f : Float) : Option Int :=
  let bits := Decimal.Bits.ofNat f.toBits.toNat
  if bits.isSpecial then none
  else
    match Decimal.Binary.ofBits bits with
    | none => some 0
    | some b => (wholeOfBinary? b).map fun n => if bits.negative then -(n : Int) else n

/-- The text that a value is or that its octets encode, if it has either, or the mistake that these are
no text. -/
def spelled (e : Expectation) : Value → Checked (Option Text)
  | .text t =>
    match t.toText with
    | .ok t => .ok (some t)
    | .error _ => mistake .encodedText
  | .bytes octets =>
    match Utf8.decode octets with
    | .ok t => .ok (some t)
    | .error _ => mistake e
  | _ => .ok none

def textOf (v : Value) : Checked Text :=
  (spelled .encodedText v).bind fun
    | some t => .ok t
    | none => mistake .text

def textOrNullOf : Value → Checked (Option Text)
  | .null => .ok none
  | v => (textOf v).map some

/-- Whether a whole number has 64 bits, the sign being one of them. -/
def isWord (n : Int) : Bool :=
  -(Decimal.twoTo 63 : Int) ≤ n && n < (Decimal.twoTo 63 : Int)

/-- The whole number that a floating-point number is, strictly within 64 bits. -/
def wholeOfNumber (f : Float) : Except Expectation Int :=
  if f.isNaN || f.isInf then .error .finite
  else
    match wholeOfFloat? f with
    | none => .error .noFraction
    | some n => if isWord n && isWord (-n) then .ok n else .error .wholeSize

/-- A truth value from a whole number. -/
def truthOfWhole (n : Int) : Checked Bool :=
  if n = 0 then .ok false
  else if n = 1 then .ok true
  else if isWord n then mistake .truthText
  else mistake .truth

/-- The truth value that a text spells. -/
def truthOfText (t : Text) : Checked Bool :=
  let word := Text.lowerAscii t
  if trueWords.contains word then .ok true
  else if falseWords.contains word then .ok false
  else mistake .truthText

def truthOf (v : Value) : Checked Bool :=
  (spelled .truthText v).bind fun
    | some t => truthOfText t
    | none =>
      match v with
      | .bool b => .ok b
      | .num (.int n) => truthOfWhole n
      | .num (.float f) =>
        match wholeOfNumber f with
        | .ok n => truthOfWhole n
        | .error _ => mistake .truth
      | _ => mistake .truth

/-- A result, or the mistake that an expectation is not met. -/
def expecting {α : Type} : Except Expectation α → Checked α
  | .ok a => .ok a
  | .error e => mistake e

def wholeOf (v : Value) : Checked Int :=
  (spelled .wholeText v).bind fun
    | some t => expecting (wholeOfText t)
    | none =>
      match v with
      | .bool b => .ok (if b then 1 else 0)
      | .num (.int n) => .ok n
      | .num (.float f) => expecting (wholeOfNumber f)
      | _ => mistake .whole

/-- The number nearest to a whole number, unless that is too large. -/
def numberOfWhole (n : Int) : Checked Float :=
  let f := Decimal.nearest n.natAbs 0
  if f.isInf then mistake .number else .ok (if n < 0 then -f else f)

def numberOf (v : Value) : Checked Float :=
  (spelled .numberText v).bind fun
    | some t =>
      match numberOfText? t with
      | some f => .ok f
      | none => mistake .numberText
    | none =>
      match v with
      | .bool b => .ok (if b then 1 else 0)
      | .num (.int n) => numberOfWhole n
      | .num (.float f) => .ok f
      | _ => mistake .number

end Graft.Shape
