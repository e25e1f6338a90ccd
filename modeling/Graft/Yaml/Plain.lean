import Graft.Decimal.Style
import Graft.Text.Digits
import Graft.Yaml.Scalar
import Graft.Yaml.Value

/-
Plain scalars of YAML text.

  `Plain.ofText t`   what a plain scalar stands for;
  `Flaw`             what it can be spelled like without standing for anything;
  `Flaw.message`     what is said about that.

A plain scalar is a truth value, null, a number or a point in time when it is spelled like one, and
a text otherwise.  The spelling decides: digits of which there are too many or none, or a day that
is in no calendar, do not make a text of it.
-/
namespace Graft.Yaml

/-- What a scalar can be spelled like without standing for anything. -/
inductive Flaw where
  -- A whole number to a base, without digits.
  | noDigits (base : Nat)
  -- A decimal whole number of too many digits.
  | tooManyDigits (count : Nat)
  -- A number to the base of sixty with a fraction and too many places before it.
  | tooManyPlaces
  | moment (f : Moment.Flaw)
  -- A character, by a code that none has.
  | noCharacter (code : Nat)
  deriving DecidableEq, Repr

def Flaw.message : Flaw → Text
  | noDigits base =>
    "invalid literal for int() with base ".toList ++ Text.decimal base ++ ": ''".toList
  | tooManyDigits count => Text.digitLimitMessage count
  | tooManyPlaces => "int too large to convert to float".toList
  | moment f => f.message
  | noCharacter _ => "chr() arg not in range(0x110000)".toList

namespace Plain

/-- Whether a text has characters, all of which are digits to a base or underscores. -/
def areDigits (base : Nat) (t : Text) : Bool :=
  !t.isEmpty && t.all fun c => c == '_' || (hexDigit? c).any fun d => d < base

/-- A decimal digit, and then digits and underscores. -/
def isDecimal (t : Text) : Bool := (t.head?.any Char.isDigit) && areDigits 10 t

def isCounting (t : Text) : Bool := isDecimal t && t.head? != some '0'

def isSixtieth (t : Text) : Bool :=
  match t with
  | [a] => a.isDigit
  | [a, b] => '0' ≤ a && a ≤ '5' && b.isDigit
  | _ => false

/-- The value of digits to a base; underscores alone have none. -/
def basedValue (base : Nat) (t : Text) : Except Flaw Nat :=
  if t.all (· == '_') then .error (.noDigits base) else .ok (Text.digitsValue base t)

/-- The value of decimal digits, if they are not too many. -/
def decimalValue (t : Text) : Except Flaw Nat :=
  let count := Text.digitCount t
  if Text.digitLimit < count then .error (.tooManyDigits count)
  else .ok (Text.digitsValue 10 t)

def whole? (t : Text) : Option (Except Flaw Nat) :=
  match t with
  | '0' :: 'b' :: ds => if areDigits 2 ds then some (basedValue 2 ds) else none
  | '0' :: 'x' :: ds => if areDigits 16 ds then some (basedValue 16 ds) else none
  | ['0'] => some (.ok 0)
  | '0' :: ds => if areDigits 8 ds then some (.ok (Text.digitsValue 8 ds)) else none
  | t =>
    if isCounting t then some (decimalValue t)
    else
      match t.splitOn ':' with
      | first :: rest =>
        if !rest.isEmpty && isCounting first && rest.all isSixtieth then
          some ((decimalValue first).map fun n =>
            rest.foldl (fun n d => 60 * n + Text.digitsValue 10 d) n)
        else none
      | [] => none

/-- A power of ten after `e`: a sign and digits. -/
def power? (t : Text) : Option Int :=
  match t with
  | [] => some 0
  | e :: sign :: ds =>
    if (e = 'e' ∨ e = 'E') ∧ (sign = '+' ∨ sign = '-') ∧ ds ≠ [] ∧ ds.all Char.isDigit then
      some (if sign = '-' then -(Text.digitsValue 10 ds : Int) else Text.digitsValue 10 ds)
    else none
  | _ => none

/-- A decimal fraction without its sign; only one without a sign may begin with the point. -/
def fraction? (hasSign : Bool) (t : Text) : Option Float := do
  let before := t.takeWhile fun c => c.isDigit || c == '_'
  let rest ← Text.after? ['.'] (t.drop before.length)
  let after := rest.takeWhile fun c => c.isDigit || c == '_'
  guard (isDecimal before || (before.isEmpty && !hasSign && isDecimal after))
  let power ← power? (rest.drop after.length)
  return Decimal.nearest (Text.digitsValue 10 (before ++ after))
    (power - (Text.digitCount after : Int))

/-- The least whole number beyond the range of a double. -/
def doubleLimit : Nat := Decimal.twoTo 1024 - Decimal.twoTo 970

/-- Adds up places to the base of sixty, the last of them first, the next one counting `unit`. -/
def sumPlaces (acc : Float) (unit : Nat) : List Text → Except Flaw Float
  | [] => .ok acc
  | t :: ts =>
    if doubleLimit ≤ unit then .error .tooManyPlaces
    else
      let place := Decimal.nearest (Text.digitsValue 10 t) 0
      sumPlaces (acc + place * Decimal.nearest unit 0) (60 * unit) ts

/-- A number to the base of sixty with a fraction, without its sign. -/
def sixtieths? (t : Text) : Option (Except Flaw Float) :=
  match (t.splitOn ':').reverse with
  | last :: middle :: rest => do
    let seconds := last.takeWhile (· != '.')
    let after ← Text.after? ['.'] (last.drop seconds.length)
    guard (isSixtieth seconds && after.all fun c => c.isDigit || c == '_')
    let parts := (middle :: rest).reverse
    guard ((parts.head?.any isDecimal) && parts.tail.all isSixtieth)
    let second :=
      Decimal.nearest (Text.digitsValue 10 (seconds ++ after)) (-(Text.digitCount after : Int))
    return sumPlaces second 60 (middle :: rest)
  | _ => none

def float? (t : Text) : Option (Except Flaw Float) :=
  let (minus, digits) := Text.signed t
  let hasSign := digits.length != t.length
  let size :=
    if [".inf".toList, ".Inf".toList, ".INF".toList].contains digits then some (.ok (1 / 0))
    else if !hasSign && [".nan".toList, ".NaN".toList, ".NAN".toList].contains digits then
      some (.ok (0 / 0))
    else ((fraction? hasSign digits).map Except.ok).or (sixtieths? digits)
  size.map fun r => r.map fun f => if minus then -f else f

def int? (t : Text) : Option (Except Flaw Int) :=
  let (minus, digits) := Text.signed t
  (whole? digits).map fun r => r.map fun n => if minus then -(n : Int) else n

/-- The value of digits, at least `least` and at most `most` of them, and what follows. -/
def digits? (least most : Nat) (t : Text) : Option (Nat × Text) :=
  let ds := (t.take most).takeWhile Char.isDigit
  if least ≤ ds.length then some (Text.digitsValue 10 ds, t.drop ds.length) else none

def offsetSign? : Text → Option (Int × Text)
  | '+' :: cs => some (1, cs)
  | '-' :: cs => some (-1, cs)
  | _ => none

/-- An offset from the universal time, in minutes, or nothing. -/
def offset? (t : Text) : Option Int :=
  match t.dropWhile isBlank with
  | [] => if t.isEmpty then some 0 else none
  | ['Z'] => some 0
  | rest => do
    let (sign, t) ← offsetSign? rest
    let (hours, t) ← digits? 1 2 t
    if t.isEmpty then return sign * (60 * hours : Nat)
    let (minutes, t) ← digits? 2 2 (← Text.after? [':'] t)
    guard t.isEmpty
    return sign * (60 * hours + minutes : Nat)

/-- A day, with two digits for month and day. -/
def day? (t : Text) : Option Moment := do
  let (year, t) ← digits? 4 4 t
  let (month, t) ← digits? 2 2 (← Text.after? ['-'] t)
  let (day, t) ← digits? 2 2 (← Text.after? ['-'] t)
  guard t.isEmpty
  return { year, month, day }

/-- What follows the mark between a day and a time. -/
def afterDay? : Text → Option Text
  | 'T' :: cs | 't' :: cs => some cs
  | t => if t.head?.any isBlank then some (t.dropWhile isBlank) else none

/-- A day and a time of day. -/
def dayAndTime? (t : Text) : Option Moment := do
  let (year, t) ← digits? 4 4 t
  let (month, t) ← digits? 1 2 (← Text.after? ['-'] t)
  let (day, t) ← digits? 1 2 (← Text.after? ['-'] t)
  let (hour, t) ← digits? 1 2 (← afterDay? t)
  let (minute, t) ← digits? 2 2 (← Text.after? [':'] t)
  let (second, t) ← digits? 2 2 (← Text.after? [':'] t)
  let t := match t with
    | '.' :: cs => cs.dropWhile Char.isDigit
    | t => t
  let offset ← offset? t
  return { year, month, day, hour, minute, second, offset }

def existing (m : Moment) : Except Flaw Moment :=
  match m.flaw? with
  | some f => .error (.moment f)
  | none => .ok m

def moment? (t : Text) : Option (Except Flaw Moment) :=
  ((day? t).or (dayAndTime? t)).map existing

def trueWords : List Text :=
  ["yes", "Yes", "YES", "true", "True", "TRUE", "on", "On", "ON"].map String.toList

def falseWords : List Text :=
  ["no", "No", "NO", "false", "False", "FALSE", "off", "Off", "OFF"].map String.toList

def nullWords : List Text := ["", "~", "null", "Null", "NULL"].map String.toList

def ofText (t : Text) : Except Flaw Value :=
  if trueWords.contains t then .ok (.bool true)
  else if falseWords.contains t then .ok (.bool false)
  else if nullWords.contains t then .ok .null
  else
    match float? t, int? t, moment? t with
    | some r, _, _ => r.map fun f => .num (.float f)
    | none, some r, _ => r.map fun n => .num (.int n)
    | none, none, some r => r.map .time
    | none, none, none => .ok (.text t)

end Plain
end Graft.Yaml
