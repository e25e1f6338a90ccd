import Graft.Text.Digits
import Graft.Text.Wide

/-
Scalars of YAML text.

  `Stop`                 why reading goes no further;
  `endMark`              what stands after the last character of a text;
  `isBreak c`            the characters that end a line;
  `atMarker t`           whether a document marker stands at the start of a text;
  `readPlain`            a plain scalar, over several lines if need be;
  `readSingle`           the rest of a single-quoted scalar;
  `readDouble`           the rest of a double-quoted scalar.

The readers return what follows the scalar.  Inside a scalar one line break is read as a space, and
of several the first is dropped.  Texts are expected with newlines for all carriage returns.

A text may be the beginning of a longer one: then no end mark follows it.  A character is passed
only when the one after it is known, and a reader that has to know more than there is stops.
-/
namespace Graft.Yaml

/-- Why reading goes no further. -/
inductive Stop where
  -- More of the text has to be known.
  | ended
  -- What comes next may not stand there.
  | refused
  -- An escape gives a code that no character has.
  | noCharacter (code : Nat)
  -- Too many sequences and mappings stand inside each other.
  | tooDeep
  deriving DecidableEq, Repr

def require (b : Bool) : Except Stop Unit := if b then .ok () else .error .refused

/-- What stands after the last character of a text; a text does not hold it. -/
def endMark : Char := '\x00'

/-- Goes on only when a number of characters, or the end before them, is known. -/
def know (count : Nat) (t : Text) : Except Stop Unit :=
  let known := t.take count
  if known.length = count || known.contains endMark then .ok () else .error .ended

def isBreak (c : Char) : Bool := c = '\n' || c = '\u0085' || c = '\u2028' || c = '\u2029'

def isBlank (c : Char) : Bool := c = ' ' || c = '\t'

/-- A blank, a line break or the end. -/
def isGap (c : Char) : Bool := isBlank c || isBreak c || c = endMark

/-- Whether a text starts with a blank or a line break, or is at its end. -/
def atGap : Text → Except Stop Bool
  | [] => .error .ended
  | c :: _ => .ok (isGap c)

/-- Whether a text starts with three of a character and a gap. -/
def atTriple (c : Char) (t : Text) : Except Stop Bool := do
  know 3 t
  match Text.after? [c, c, c] t with
  | some rest => atGap rest
  | none => return false

/-- Whether a text starts with a document marker. -/
def atMarker (t : Text) : Except Stop Bool := do
  return (← atTriple '-' t) || (← atTriple '.' t)

/-- A line break as it is kept in a scalar. -/
def keptBreak (c : Char) : Char := if c = '\u0085' then '\n' else c

/-- Consecutive line breaks as they are kept in a scalar. -/
def folded : Text → Text
  | ['\n'] => [' ']
  | '\n' :: rest => rest
  | breaks => breaks

/-- What stands between two words of a plain scalar. -/
structure Gap where
  -- What the gap means, or nothing when a document marker follows.
  text : Option Text
  -- The column of the next word, when there is a line break.
  column : Option Nat
  rest : Text

/-- Line breaks and spaces, the last of the breaks `column` characters ago; in reverse, the breaks
so far. -/
def readBreaks (breaks : Text) (column : Nat) : Text → Except Stop Gap
  | [] => .error .ended
  | c :: cs =>
    if c = ' ' then readBreaks breaks (column + 1) cs
    else if isBreak c then do
      if ← atMarker cs then return ⟨none, some 0, cs⟩
      else readBreaks (keptBreak c :: breaks) 0 cs
    else .ok ⟨some (folded breaks.reverse), some column, c :: cs⟩

/-- The gap that a text starts with. -/
def readGap (t : Text) : Except Stop Gap := do
  let blanks := t.takeWhile (· == ' ')
  match t.dropWhile (· == ' ') with
  | [] => throw .ended
  | c :: cs =>
    if !isBreak c then return ⟨some blanks, none, c :: cs⟩
    else if ← atMarker cs then return ⟨none, some 0, cs⟩
    else readBreaks [keptBreak c] 0 cs

/-- Whether a plain scalar ends before `c`, which `next` follows. -/
def endsPlain (inFlow : Bool) (c : Char) (next : Text) : Bool :=
  isGap c || (inFlow && ",?[]\x7b\x7d".toList.contains c) ||
    (c == ':' &&
      next.head?.any fun n => isGap n || (inFlow && ",[]\x7b\x7d".toList.contains n))

/-- A word of a plain scalar, and what follows it. -/
def readWord (inFlow : Bool) : Text → Text × Text
  | [] => ([], [])
  | c :: cs =>
    if endsPlain inFlow c cs then ([], c :: cs)
    else
      let (word, rest) := readWord inFlow cs
      (c :: word, rest)

/-- A plain scalar that starts at a text: its value, whether a line break follows it, and the rest
after the gap.  In block style a line that is indented less than `indent` does not belong to it. -/
def readPlain (inFlow : Bool) (indent : Int) (t : Text) : Except Stop (Text × Bool × Text) :=
  go t.length false t
where
  -- The flag tells whether a line break has just been passed.
  go : Nat → Bool → Text → Except Stop (Text × Bool × Text)
    | 0, _, _ => .error .ended
    | fuel + 1, broken, t => do
      let (word, rest) := readWord inFlow t
      know 1 rest
      if word.isEmpty then return ([], broken, t)
      let gap ← readGap rest
      let broken := gap.column.isSome
      let outside := !inFlow && gap.column.any fun k => (k : Int) < indent
      match gap.text with
      | none | some [] => return (word, broken, gap.rest)
      | some between =>
        if gap.rest.head? == some '#' || outside then return (word, broken, gap.rest)
        else
          match ← go fuel broken gap.rest with
          | ([], broken, rest) => return (word, broken, rest)
          | (more, broken, rest) => return (word ++ between ++ more, broken, rest)

/-- Further line breaks inside quotes, blanks around them left out; a document marker is not
allowed. -/
def readQuotedBreaks : Nat → Text → Except Stop (Text × Text)
  | 0, _ => .error .ended
  | fuel + 1, t => do
    require (!(← atMarker t))
    match t.dropWhile isBlank with
    | [] => throw .ended
    | c :: cs =>
      if isBreak c then
        let (breaks, rest) ← readQuotedBreaks fuel cs
        return (keptBreak c :: breaks, rest)
      else return ([], c :: cs)

def readQuotedGap (t : Text) : Except Stop (Text × Text) := do
  let blanks := t.takeWhile isBlank
  match t.dropWhile isBlank with
  | [] => throw .ended
  | c :: cs =>
    if isBreak c then
      let (breaks, rest) ← readQuotedBreaks (cs.length + 1) cs
      return (folded (keptBreak c :: breaks), rest)
    else
      require (c ≠ endMark)
      return (blanks, c :: cs)

def readSingle (t : Text) : Except Stop (Wide × Text) := (go t.length t).map fun r => (r.1.wide, r.2)
where
  go : Nat → Text → Except Stop (Text × Text)
    | 0, _ => .error .ended
    | _ + 1, [] => .error .ended
    | fuel + 1, '\'' :: '\'' :: cs => (go fuel cs).map fun r => ('\'' :: r.1, r.2)
    | fuel + 1, c :: cs =>
      if c = '\'' then do
        know 1 cs
        return ([], cs)
      else if isGap c then do
        let (gap, rest) ← readQuotedGap (c :: cs)
        let (more, rest) ← go fuel rest
        return (gap ++ more, rest)
      else (go fuel cs).map fun r => (c :: r.1, r.2)

/-- The characters that a backslash and a character stand for. -/
def escapes : List (Char × Char) :=
  [('0', '\x00'), ('a', '\x07'), ('b', '\x08'), ('t', '\t'), ('\t', '\t'), ('n', '\n'),
   ('v', '\x0b'), ('f', '\x0c'), ('r', '\r'), ('e', '\x1b'), (' ', ' '), ('"', '"'),
   ('\\', '\\'), ('/', '/'), ('N', '\u0085'), ('_', '\u00a0'), ('L', '\u2028'), ('P', '\u2029')]

/-- How many hexadecimal digits follow a backslash and a character. -/
def codeWidth? (c : Char) : Option Nat :=
  if c = 'x' then some 2 else if c = 'u' then some 4 else if c = 'U' then some 8 else none

/-- The code point of a code. -/
def pointOf (code : Nat) : Except Stop Point :=
  if 0x10FFFF < code then .error (.noCharacter code) else .ok (Point.ofUnit code)

/-- The code point whose code is written with `width` hexadecimal digits. -/
def readCode (width : Nat) (t : Text) : Except Stop (Point × Text) := do
  let digits := t.take width
  require (digits.all fun c => (hexDigit? c).isSome)
  if digits.length < width then .error .ended
  else
    let p ← pointOf (Text.digitsValue 16 digits)
    return (p, t.drop width)

/-- What a backslash and the text after it stand for. -/
def readEscape : Text → Except Stop (Wide × Text)
  | [] => .error .ended
  | c :: cs =>
    match escapes.find? fun e => e.1 == c with
    | some e => .ok ([.char e.2], cs)
    | none =>
      match codeWidth? c with
      | some width => (readCode width cs).map fun r => ([r.1], r.2)
      | none =>
        if isBreak c then (readQuotedBreaks (cs.length + 1) cs).map fun r => (r.1.wide, r.2)
        else .error .refused

def readDouble (t : Text) : Except Stop (Wide × Text) := go t.length t
where
  go : Nat → Text → Except Stop (Wide × Text)
    | 0, _ => .error .ended
    | _ + 1, [] => .error .ended
    | fuel + 1, c :: cs =>
      if c = '"' then do
        know 1 cs
        return ([], cs)
      else if c = '\\' then do
        let (value, rest) ← readEscape cs
        let (more, rest) ← go fuel rest
        return (value ++ more, rest)
      else if isGap c then do
        let (gap, rest) ← readQuotedGap (c :: cs)
        let (more, rest) ← go fuel rest
        return (gap.wide ++ more, rest)
      else (go fuel cs).map fun r => (.char c :: r.1, r.2)

end Graft.Yaml
