import Graft.Yaml.Scalar

/-
Tokens of YAML text.

  `Token`     a mark, a scalar, or the begin or end of a block;
  `Scanned`   tokens that are certain, and why there are no more of them;
  `scan t`    the tokens of a text that an end mark follows, or of the beginning of one.

A block begins where an entry, a key or a value stands further to the right than the block around
it, and ends where something stands further to the left.  A scalar or a bracket may turn out to be a
key: it is remembered as a candidate until a colon on the same line makes it one, and the marks that
belong in front of it are put there then.

A mark is passed only when it is known what follows.  That a mark may not stand where it does is
found out before, except for a closing bracket without an opening one and for characters with which
no token starts.

Directives, anchors, aliases, tags and block scalars are not read.
-/
namespace Graft.Yaml

/-- A token. -/
inductive Token where
  | documentStart
  | documentEnd
  -- The begin of a block of entries.
  | blockSequence
  -- The begin of a block of keys.
  | blockMapping
  | blockEnd
  | openSequence
  | closeSequence
  | openMapping
  | closeMapping
  | entry
  | comma
  | key
  | value
  -- A scalar without quotes, and one within.
  | plain (text : Text)
  | quoted (text : Wide)
  deriving DecidableEq, Repr

/-- What may turn out to be a key. -/
structure Candidate where
  level : Nat
  place : Nat
  required : Bool
  index : Nat
  line : Nat
  column : Nat

/-- Tokens that are certain, and why there are no more of them. -/
structure Scanned where
  tokens : List Token
  -- Why there are no more, unless these are all.
  stop : Option Stop

/-- A text on the way to tokens. -/
structure Scan where
  rest : Text
  index : Nat := 0
  line : Nat := 0
  -- How many characters of the line have been passed.
  column : Nat := 0
  -- The tokens so far, the last of them first.
  tokens : List Token := []
  count : Nat := 0
  -- The columns of the open blocks, the inner ones first.
  blocks : List Nat := []
  level : Nat := 0
  keyAllowed : Bool := true
  -- What may turn out to be a key, at most one for each level.
  candidates : List Candidate := []

namespace Scan

def pass (s : Scan) (c : Char) (rest : Text) : Scan :=
  if isBreak c then { s with rest, index := s.index + 1, line := s.line + 1, column := 0 }
  else
    { s with
      rest, index := s.index + 1
      column := if c = '\ufeff' then s.column else s.column + 1 }

def passTo (s : Scan) (rest : Text) : Scan :=
  let passed := s.rest.take (s.rest.length - rest.length)
  { passed.foldl (fun s c => s.pass c []) s with rest }

def add (s : Scan) (t : Token) : Scan :=
  { s with tokens := t :: s.tokens, count := s.count + 1 }

/-- Puts a token in front of the one at a place. -/
def addAt (s : Scan) (place : Nat) (t : Token) : Scan :=
  let later := s.count - place
  { s with
    tokens := s.tokens.take later ++ t :: s.tokens.drop later
    count := s.count + 1 }

/-- The column of the innermost block; one column before the text without any. -/
def indent (s : Scan) : Int :=
  match s.blocks with
  | [] => -1
  | column :: _ => column

/-- Ends the blocks to the right of a column. -/
def endBlocks (column : Int) (s : Scan) : Scan :=
  if s.level = 0 then
    let ended := s.blocks.takeWhile fun (b : Nat) => decide (column < (b : Int))
    { s with
      blocks := s.blocks.drop ended.length
      tokens := (ended.map fun _ => Token.blockEnd) ++ s.tokens
      count := s.count + ended.length }
  else s

/-- Whether a block begins at a column. -/
def opens (s : Scan) (column : Nat) : Bool := s.level == 0 && s.indent < column

/-- Begins a block at a column unless one is open there. -/
def beginBlock (s : Scan) (column place : Nat) (t : Token) : Scan :=
  if s.opens column then { s.addAt place t with blocks := column :: s.blocks } else s

def candidate? (s : Scan) : Option Candidate := s.candidates.find? fun c => c.level == s.level

/-- The scan without the candidate of the present level. -/
def withoutCandidate (s : Scan) : Scan :=
  { s with candidates := s.candidates.filter fun c => c.level != s.level }

/-- Gives up the candidate of the present level, unless it must be a key. -/
def giveUp (s : Scan) : Except Stop Scan := do
  require (!s.candidate?.any Candidate.required)
  return s.withoutCandidate

/-- Remembers what comes next as a candidate, if a key may stand here. -/
def remember (s : Scan) : Except Stop Scan :=
  if s.keyAllowed then
    s.giveUp.map fun s =>
      let required := s.level == 0 && s.indent == s.column
      let c : Candidate := ⟨s.level, s.count, required, s.index, s.line, s.column⟩
      { s with candidates := c :: s.candidates }
  else .ok s

/-- Whether a candidate can no longer become a key. -/
def isStale (s : Scan) (c : Candidate) : Bool := c.line != s.line || 1024 < s.index - c.index

/-- Drops the candidates that can no longer become keys, unless one of them must. -/
def dropStale (s : Scan) : Except Stop Scan := do
  require (!s.candidates.any fun c => s.isStale c && c.required)
  return { s with candidates := s.candidates.filter fun c => !s.isStale c }

/-- Passes a mark of a few characters, if it is known what follows. -/
def passMark (s : Scan) (count : Nat) : Except Stop Scan := do
  let rest := s.rest.drop count
  know 1 rest
  return s.passTo rest

/-- Passes spaces, comments and line breaks; the flag tells whether a comment is open. -/
def skipFrom (s : Scan) (comment : Bool) : Text → Except Stop Scan
  | [] => .error .ended
  | c :: cs =>
    if isBreak c then
      let s := s.pass c cs
      skipFrom (if s.level = 0 then { s with keyAllowed := true } else s) false cs
    else if c ≠ endMark && (comment || c = ' ' || c = '#') then
      skipFrom (s.pass c cs) (comment || c = '#') cs
    else .ok { s with rest := c :: cs }

/-- Passes what stands before the next token, and a byte order mark at the start of the text. -/
def skip (s : Scan) : Except Stop Scan :=
  match s.index, s.rest with
  | 0, '\ufeff' :: cs => (s.pass '\ufeff' cs).skipFrom false cs
  | _, rest => s.skipFrom false rest

def documentMark (s : Scan) (t : Token) : Except Stop Scan := do
  let s ← (s.endBlocks (-1)).giveUp
  return (← { s with keyAllowed := false }.passMark 3).add t

def openBracket (s : Scan) (t : Token) : Except Stop Scan := do
  let s ← s.remember
  return (← { s with level := s.level + 1, keyAllowed := true }.passMark 1).add t

def closeBracket (s : Scan) (t : Token) : Except Stop Scan := do
  let s ← s.giveUp
  let closed ← { s with level := s.level - 1, keyAllowed := false }.passMark 1
  require (s.level ≠ 0)
  return closed.add t

def comma (s : Scan) : Except Stop Scan := do
  let s ← s.giveUp
  return (← { s with keyAllowed := true }.passMark 1).add .comma

def entry (s : Scan) : Except Stop Scan := do
  require (s.level ≠ 0 || s.keyAllowed)
  let s ← (s.beginBlock s.column s.count .blockSequence).giveUp
  return (← { s with keyAllowed := true }.passMark 1).add .entry

def explicitKey (s : Scan) : Except Stop Scan := do
  require (s.level ≠ 0 || s.keyAllowed)
  let s ← (s.beginBlock s.column s.count .blockMapping).giveUp
  return (← { s with keyAllowed := s.level == 0 }.passMark 1).add .key

/-- A colon: what was remembered becomes a key. -/
def value (s : Scan) : Except Stop Scan := do
  let s ←
    match s.candidate? with
    | some c =>
      let s := s.withoutCandidate.addAt c.place .key
      pure { s.beginBlock c.column c.place .blockMapping with keyAllowed := false }
    | none => do
      require (s.level ≠ 0 || s.keyAllowed)
      let s := s.beginBlock s.column s.count .blockMapping
      pure { s with keyAllowed := s.level == 0 }
  return (← s.passMark 1).add .value

def quoted (s : Scan) (read : Text → Except Stop (Wide × Text)) : Except Stop Scan := do
  let s ← s.remember
  let (text, rest) ← read s.rest.tail
  return ({ s with keyAllowed := false }.passTo rest).add (.quoted text)

def plain (s : Scan) : Except Stop Scan := do
  let s ← s.remember
  let (text, broken, rest) ← readPlain (s.level != 0) (s.indent + 1) s.rest
  return ({ s with keyAllowed := broken }.passTo rest).add (.plain text)

/-- The document marker that a line starts with. -/
def marker? (s : Scan) : Except Stop (Option Token) :=
  match s.column, s.rest with
  | 0, '-' :: _ => return if ← atTriple '-' s.rest then some .documentStart else none
  | 0, '.' :: _ => return if ← atTriple '.' s.rest then some .documentEnd else none
  | _, _ => return none

/-- Whether a character begins a mark that is not read. -/
def isUnread (s : Scan) (c : Char) : Bool :=
  "*&!".toList.contains c || (s.level == 0 && "|>".toList.contains c) || (s.column == 0 && c == '%')

/-- Whether a plain scalar starts at a character, whatever follows. -/
def isPlainStart (c : Char) : Bool :=
  !(isGap c || "-?:,[]\x7b\x7d#&*!|>'\"%@\x60".toList.contains c)

/-- The token that starts with a hyphen, a question mark, a colon or what no token starts with. -/
def marked (s : Scan) (c : Char) (cs : Text) : Except Stop Scan := do
  let inFlow := s.level != 0
  let gap ← atGap cs
  if c = '-' then if gap then s.entry else s.plain
  else if c = '?' then if inFlow || gap then s.explicitKey else s.plain
  else if c = ':' then if inFlow || gap then s.value else s.plain
  else throw .refused

/-- The token that starts with a character. -/
def next (s : Scan) (c : Char) (cs : Text) : Except Stop Scan := do
  match ← s.marker? with
  | some t => s.documentMark t
  | none =>
    if c = '[' then s.openBracket .openSequence
    else if c = '{' then s.openBracket .openMapping
    else if c = ']' then s.closeBracket .closeSequence
    else if c = '}' then s.closeBracket .closeMapping
    else if c = ',' then s.comma
    else if c = '\'' then s.quoted readSingle
    else if c = '"' then s.quoted readDouble
    else if isPlainStart c then s.plain
    else if s.isUnread c then throw .refused
    else s.marked c cs

/-- Goes on by one token; the flag tells whether the text is at its end instead. -/
def step (s : Scan) : Except Stop (Bool × Scan) := do
  let s ← (← s.skip).dropStale
  let s := s.endBlocks s.column
  match s.rest with
  | [] => throw .ended
  | c :: cs =>
    if c = endMark then return (true, ← (s.endBlocks (-1)).giveUp)
    else return (false, ← s.next c cs)

/-- The tokens that no candidate can change any more. -/
def stopped (s : Scan) (stop : Stop) : Scanned where
  tokens :=
    let certain := (s.candidates.map Candidate.place).foldl min s.count
    (s.tokens.drop (s.count - certain)).reverse
  stop := some stop

def run : Nat → Scan → Scanned
  | 0, s => s.stopped .ended
  | fuel + 1, s =>
    match s.dropStale with
    | .error e => s.stopped e
    | .ok s =>
      match s.step with
      | .error e => s.stopped e
      | .ok (true, s) => ⟨s.tokens.reverse, none⟩
      | .ok (false, s) => run fuel s

end Scan

def scan (t : Text) : Scanned := Scan.run (t.length + 1) { rest := t }

end Graft.Yaml
