import Graft.Json.Basic
import Graft.Decimal.Style
import Graft.Text.Digits

/-
Reading JSON text.

  `Json.read d t`   the value that `t` holds, or where and why it is no JSON text.

Beyond the standard, the names `NaN`, `Infinity` and `-Infinity` are numbers.  A repeated key keeps
its first place and its last value.  A text is read by its code points: a surrogate in a string, or
an escape of one without its partner, stands for itself.  Integers are exact up to 4300 digits, and
arrays and objects nest up to `d` levels, or to any depth when no limit is given; beyond these limits
reading fails with an error of its own.

Design notes.  Each reader takes the rest of the text and returns what follows what it read.  A
fault records how many characters were left, which gives its offset once the length of the whole
text is known.  The readers of values, items and members run on fuel; every two calls in a row pass
at least one character, so twice the length of the text is enough.
-/
namespace Graft.Json

/-- Why a text is not JSON. -/
inductive Reason where
  | expectingValue
  | expectingName
  | expectingColon
  -- Neither a comma nor the closing bracket follows.
  | expectingComma
  -- The string that starts here does not end.
  | unterminatedString
  -- A control character stands in a string.
  | controlCharacter
  | invalidEscape
  | invalidUnicodeEscape
  | extraData
  -- The text starts with a byte order mark.
  | byteOrderMark
  deriving DecidableEq, Repr

/-- What a reader reports: a reason with the number of characters left, or a limit exceeded. -/
inductive Stop where
  -- The text is not JSON where `left` characters are left.
  | fault (reason : Reason) (left : Nat)
  | tooManyDigits (count : Nat)
  -- An array or an object is nested too deeply.
  | tooDeep (object : Bool)
  deriving DecidableEq, Repr

/-- Why a text cannot be read. -/
inductive ReadError where
  -- The text is not JSON at this place, counted from one, and at this offset.
  | malformed (reason : Reason) (line column offset : Nat)
  | tooManyDigits (count : Nat)
  -- An array or an object is nested too deeply.
  | tooDeep (object : Bool)
  deriving DecidableEq, Repr

/-- A reader of a part of a text. -/
abbrev Reader (α : Type) := Wide → Except Stop (α × Wide)

def Reason.message : Reason → Text
  | .expectingValue => "Expecting value".toList
  | .expectingName => "Expecting property name enclosed in double quotes".toList
  | .expectingColon => "Expecting ':' delimiter".toList
  | .expectingComma => "Expecting ',' delimiter".toList
  | .unterminatedString => "Unterminated string starting at".toList
  | .controlCharacter => "Invalid control character at".toList
  | .invalidEscape => "Invalid \\escape".toList
  | .invalidUnicodeEscape => "Invalid \\uXXXX escape".toList
  | .extraData => "Extra data".toList
  | .byteOrderMark => "Unexpected UTF-8 BOM (decode using utf-8-sig)".toList

def ReadError.message : ReadError → Text
  | .malformed reason line column offset =>
    reason.message ++ ": line ".toList ++ Text.decimal line ++ " column ".toList ++
      Text.decimal column ++ " (char ".toList ++ Text.decimal offset ++ ")".toList
  | .tooManyDigits count => Text.digitLimitMessage count
  | .tooDeep object =>
    "maximum recursion depth exceeded while decoding a JSON ".toList ++
      (if object then "object" else "array").toList ++ " from a unicode string".toList

/-- The place of a stop in the text. -/
def Stop.locate (t : Wide) : Stop → ReadError
  | .fault reason left =>
    let before := t.take (t.length - left)
    let column := (before.reverse.takeWhile (· != .char '\n')).length + 1
    .malformed reason (before.count (.char '\n') + 1) column before.length
  | .tooManyDigits count => .tooManyDigits count
  | .tooDeep object => .tooDeep object

/-- A fault at the start of the rest `t`. -/
def failAt (reason : Reason) (t : Wide) : Except Stop α := .error (.fault reason t.length)

/-- The four characters that may stand between the parts of a value. -/
def isGap (c : Char) : Bool := c = ' ' || c = '\t' || c = '\n' || c = '\r'

def skipGap (t : Wide) : Wide := t.dropWhile (Point.meets isGap)

/-- The value of four hexadecimal digits that something follows. -/
def hex4? : Wide → Option (Nat × Wide)
  | .char a :: .char b :: .char c :: .char d :: e :: rest => do
    let a ← hexDigit? a
    let b ← hexDigit? b
    let c ← hexDigit? c
    let d ← hexDigit? d
    some (((a * 16 + b) * 16 + c) * 16 + d, e :: rest)
  | _ => none

/-- The unit or the pair of units after `\u`; `t` starts with the `u`. -/
def readUnits (t : Wide) : Except Stop (Point × Wide) :=
  match hex4? (t.drop 1) with
  | none => failAt .invalidUnicodeEscape t
  | some (high, rest) =>
    if 0xD800 ≤ high && high < 0xDC00 then
      match rest with
      | .char '\\' :: .char 'u' :: rest' =>
        match hex4? rest' with
        | none => failAt .invalidUnicodeEscape (.char 'u' :: rest')
        | some (low, rest'') =>
          if 0xDC00 ≤ low && low < 0xE000 then
            .ok (.char (Char.ofNat (0x10000 + (high - 0xD800) * 0x400 + (low - 0xDC00))), rest'')
          else .ok (Point.ofUnit high, rest)
      | _ => .ok (Point.ofUnit high, rest)
    else .ok (Point.ofUnit high, rest)

def shortEscape? (c : Char) : Option Char :=
  if c = '"' || c = '\\' || c = '/' then some c
  else if c = 'b' then some '\x08'
  else if c = 'f' then some '\x0c'
  else if c = 'n' then some '\n'
  else if c = 'r' then some '\r'
  else if c = 't' then some '\t'
  else none

/-- The code points of a string up to its closing quote.  `opened` counts the characters left at the
opening quote; the first argument is fuel, one per character. -/
def readString (opened : Nat) : Nat → Reader Wide
  | 0, _ => .error (.fault .unterminatedString opened)
  | fuel + 1, t =>
    match t with
    | [] => .error (.fault .unterminatedString opened)
    | .char '"' :: rest => .ok ([], rest)
    | .char '\\' :: [] => .error (.fault .unterminatedString opened)
    | .char '\\' :: .char 'u' :: rest => do
      let (p, rest) ← readUnits (.char 'u' :: rest)
      let (ps, rest) ← readString opened fuel rest
      return (p :: ps, rest)
    | .char '\\' :: p :: rest =>
      match p.char?.bind shortEscape? with
      | none => failAt .invalidEscape t
      | some c => do
        let (ps, rest) ← readString opened fuel rest
        return (.char c :: ps, rest)
    | p :: rest =>
      if p.toNat < 0x20 then failAt .controlCharacter t
      else do
        let (ps, rest) ← readString opened fuel rest
        return (p :: ps, rest)

/-- The string whose opening quote has just been passed. -/
def readText (t : Wide) : Except Stop (Wide × Wide) :=
  readString (t.length + 1) (t.length + 1) t

/-- The digits that a text begins with, and what follows them. -/
def spanDigits : Wide → Text × Wide
  | .char c :: rest =>
    if c.isDigit then
      let (ds, rest) := spanDigits rest
      (c :: ds, rest)
    else ([], .char c :: rest)
  | t => ([], t)

/-- The digits of the fraction after a point. -/
def readFraction : Wide → Option (Text × Wide)
  | .char '.' :: rest =>
    let (ds, rest) := spanDigits rest
    if ds.isEmpty then none else some (ds, rest)
  | _ => none

/-- What follows a sign, and whether it is a minus. -/
def passSign : Wide → Bool × Wide
  | .char '-' :: rest => (true, rest)
  | .char '+' :: rest => (false, rest)
  | t => (false, t)

/-- The power of ten after its mark. -/
def readPower : Wide → Option (Int × Wide)
  | .char e :: rest =>
    if e = 'e' || e = 'E' then
      let (negative, rest) := passSign rest
      let (ds, rest) := spanDigits rest
      if ds.isEmpty then none
      else
        let n : Int := Text.digitsValue 10 ds
        some (if negative then -n else n, rest)
    else none
  | _ => none

/-- The digits that a number starts with; behind a zero there are no more. -/
def leadingDigits : Wide → Text × Wide
  | .char '0' :: rest => (['0'], rest)
  | t => spanDigits t

/-- The number after its sign; `none` when no digit follows. -/
def readMagnitude (negative : Bool) (t : Wide) : Option (Except Stop (Number × Wide)) :=
  let whole := leadingDigits t
  if whole.1.isEmpty then none
  else
    let fraction := readFraction whole.2
    let rest := (fraction.map Prod.snd).getD whole.2
    let power := readPower rest
    let rest := (power.map Prod.snd).getD rest
    if fraction.isNone && power.isNone then
      if Text.digitLimit < whole.1.length then some (.error (.tooManyDigits whole.1.length))
      else
        let n : Int := Text.digitsValue 10 whole.1
        some (.ok (.int (if negative then -n else n), rest))
    else
      let places := (fraction.map Prod.fst).getD []
      let f := Decimal.nearest (Text.digitsValue 10 (whole.1 ++ places))
        ((power.map Prod.fst).getD 0 - places.length)
      some (.ok (.float (if negative then -f else f), rest))

/-- A value that is one word or a number; `none` when the text starts with neither. -/
def readAtom (t : Wide) : Option (Except Stop (Json × Wide)) :=
  let words : List (Text × Json) :=
    [("null".toList, .null), ("true".toList, .bool true), ("false".toList, .bool false),
     ("NaN".toList, .num (.float (0 / 0))), ("Infinity".toList, .num (.float (1 / 0))),
     ("-Infinity".toList, .num (.float (-1 / 0)))]
  match words.findSome? fun w => (Wide.after? w.1 t).map fun rest => (w.2, rest) with
  | some found => some (.ok found)
  | none =>
    let number :=
      match t with
      | .char '-' :: rest => readMagnitude true rest
      | _ => readMagnitude false t
    number.map fun r => r.map fun (n, rest) => (.num n, rest)

mutual

/-- The value that the rest starts with; `depth` counts the levels that may still be opened, unless
there is no limit to them. -/
def readValue : Nat → Option Nat → Reader Json
  | 0, _, t => failAt .expectingValue t
  | fuel + 1, depth, t =>
    match t with
    | .char '"' :: rest => do
      let (s, rest) ← readText rest
      return (.str s, rest)
    | .char '{' :: rest =>
      if depth = some 0 then .error (.tooDeep true)
      else
        match skipGap rest with
        | .char '}' :: rest => .ok (.obj [], rest)
        | rest => do
          let (members, rest) ← readMembers fuel (depth.map Nat.pred) [] rest
          return (.obj members, rest)
    | .char '[' :: rest =>
      if depth = some 0 then .error (.tooDeep false)
      else
        match skipGap rest with
        | .char ']' :: rest => .ok (.arr [], rest)
        | rest => do
          let (items, rest) ← readItems fuel (depth.map Nat.pred) rest
          return (.arr items, rest)
    | t => (readAtom t).getD (failAt .expectingValue t)

/-- The items of an array up to its closing bracket. -/
def readItems : Nat → Option Nat → Reader (List Json)
  | 0, _, t => failAt .expectingValue t
  | fuel + 1, depth, t => do
    let (v, rest) ← readValue fuel depth t
    match skipGap rest with
    | .char ']' :: rest => return ([v], rest)
    | .char ',' :: rest => do
      let (vs, rest) ← readItems fuel depth (skipGap rest)
      return (v :: vs, rest)
    | rest => failAt .expectingComma rest

/-- The members of an object up to its closing brace, added to those before them. -/
def readMembers : Nat → Option Nat → List (Wide × Json) → Reader (List (Wide × Json))
  | 0, _, _, t => failAt .expectingName t
  | fuel + 1, depth, members, t =>
    match t with
    | .char '"' :: rest => do
      let (key, rest) ← readText rest
      match skipGap rest with
      | .char ':' :: rest => do
        let (v, rest) ← readValue fuel depth (skipGap rest)
        let members := Table.set key v members
        match skipGap rest with
        | .char '}' :: rest => return (members, rest)
        | .char ',' :: rest => readMembers fuel depth members (skipGap rest)
        | rest => failAt .expectingComma rest
      | rest => failAt .expectingColon rest
    | t => failAt .expectingName t

end

/-- The value of a whole text, gaps around it allowed. -/
def readDocument (depth : Option Nat) (t : Wide) : Except Stop Json :=
  match t with
  | .char '\ufeff' :: _ => failAt .byteOrderMark t
  | _ => do
    let (v, rest) ← readValue (2 * t.length + 2) depth (skipGap t)
    match skipGap rest with
    | [] => return v
    | rest => failAt .extraData rest

def read (depth : Option Nat) (t : Wide) : Except ReadError Json :=
  (readDocument depth t).mapError (Stop.locate t)

end Graft.Json
