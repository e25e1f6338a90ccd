import Graft.Text.Pieces
import Graft.Yaml.Token

/-
The structure of YAML text.

  `Node`                   a scalar, a sequence or a mapping;
  `Node.ofTokens n`        the one document among tokens, at most `n` levels deep;
  `Node.ofKnown n t`       the one document of a text, as far as it is known;
  `Node.ofText n more t`   the one document of a text that may go on.

A text holds at most one document.  What is left out, a value after its colon or a whole document,
is an empty plain scalar.

A text is read in pieces, and a piece is looked at as a whole before anything in it is read.  So a
character that may not stand in YAML text comes after what is wrong in the pieces before its own.

Design notes.  The readers take tokens and return those that are left.  They run on fuel; no two
calls in a row leave the tokens as they are, so twice their number is enough.  They also count the
levels that may still be opened.
-/
namespace Graft.Yaml

/-- A part of a document. -/
inductive Node where
  -- A scalar without quotes, and one within.
  | plain (text : Text)
  | quoted (text : Wide)
  | sequence (items : List Node)
  | mapping (pairs : List (Node × Node))

namespace Node

/-- What stands for a part that is left out. -/
def absent : Node := .plain []

/-- A reader of tokens. -/
abbrev Reader (α : Type) := List Token → Except Stop (α × List Token)

/-- Why no token can be read here. -/
def stopAt : List Token → Stop
  | [] => .ended
  | _ :: _ => .refused

/-- How many levels may be opened inside the next one. -/
def inside : Nat → Except Stop Nat
  | 0 => .error .tooDeep
  | depth + 1 => .ok depth

/-- Whether the first token is one of a few. -/
def atAny (ts : List Token) (few : List Token) : Bool := ts.head?.any fun t => few.contains t

mutual

/-- A node in block style; `compact` allows entries that open no block of their own. -/
def readBlock : Nat → Nat → Bool → Reader Node
  | 0, _, _, _ => .error .ended
  | fuel + 1, depth, compact, ts =>
    match ts with
    | .blockSequence :: rest => do
      let (items, rest) ← readEntries fuel (← inside depth) rest
      return (.sequence items, rest)
    | .blockMapping :: rest => do
      let (pairs, rest) ← readPairs fuel (← inside depth) rest
      return (.mapping pairs, rest)
    | .entry :: rest => do
      require compact
      let (items, rest) ← readCompact fuel (← inside depth) (.entry :: rest)
      return (.sequence items, rest)
    | ts => readFlow fuel depth ts

def readFlow : Nat → Nat → Reader Node
  | 0, _, _ => .error .ended
  | fuel + 1, depth, ts =>
    match ts with
    | .plain text :: rest => .ok (.plain text, rest)
    | .quoted text :: rest => .ok (.quoted text, rest)
    | .openSequence :: rest => do
      let (items, rest) ← readItems fuel (← inside depth) true rest
      return (.sequence items, rest)
    | .openMapping :: rest => do
      let (pairs, rest) ← readMembers fuel (← inside depth) true rest
      return (.mapping pairs, rest)
    | ts => .error (stopAt ts)

/-- The entries of a block, up to its end. -/
def readEntries : Nat → Nat → Reader (List Node)
  | 0, _, _ => .error .ended
  | fuel + 1, depth, ts =>
    match ts with
    | .entry :: rest => do
      let (item, rest) ←
        if atAny rest [.entry, .blockEnd] then pure (absent, rest)
        else readBlock fuel depth false rest
      let (items, rest) ← readEntries fuel depth rest
      return (item :: items, rest)
    | .blockEnd :: rest => .ok ([], rest)
    | ts => .error (stopAt ts)

/-- Entries without a block of their own. -/
def readCompact : Nat → Nat → Reader (List Node)
  | 0, _, _ => .error .ended
  | fuel + 1, depth, ts =>
    match ts with
    | .entry :: rest => do
      let (item, rest) ←
        if atAny rest [.entry, .key, .value, .blockEnd] then pure (absent, rest)
        else readBlock fuel depth false rest
      let (items, rest) ← readCompact fuel depth rest
      return (item :: items, rest)
    | ts => .ok ([], ts)

/-- The pairs of a block, up to its end. -/
def readPairs : Nat → Nat → Reader (List (Node × Node))
  | 0, _, _ => .error .ended
  | fuel + 1, depth, ts =>
    match ts with
    | .key :: rest => do
      let (key, rest) ←
        if atAny rest [.key, .value, .blockEnd] then pure (absent, rest)
        else readBlock fuel depth true rest
      let (value, rest) ← readPairValue fuel depth rest
      let (pairs, rest) ← readPairs fuel depth rest
      return ((key, value) :: pairs, rest)
    | .blockEnd :: rest => .ok ([], rest)
    | ts => .error (stopAt ts)

/-- The value of a pair in a block. -/
def readPairValue : Nat → Nat → Reader Node
  | 0, _, _ => .error .ended
  | fuel + 1, depth, ts =>
    match ts with
    | .value :: rest =>
      if atAny rest [.key, .value, .blockEnd] then pure (absent, rest)
      else readBlock fuel depth true rest
    | ts => pure (absent, ts)

/-- The items between square brackets; a comma stands before each but the first. -/
def readItems : Nat → Nat → Bool → Reader (List Node)
  | 0, _, _, _ => .error .ended
  | fuel + 1, depth, first, ts =>
    match ts with
    | .closeSequence :: rest => .ok ([], rest)
    | ts => do
      let rest ←
        match first, ts with
        | true, ts => pure ts
        | false, .comma :: rest => pure rest
        | false, ts => .error (stopAt ts)
      match rest with
      | .closeSequence :: rest => return ([], rest)
      | .key :: rest => do
        let (key, rest) ←
          if atAny rest [.value, .comma, .closeSequence] then pure (absent, rest)
          else readFlow fuel depth rest
        let (value, rest) ← readMemberValue fuel depth .closeSequence rest
        let (items, rest) ← readItems fuel depth false rest
        return (.mapping [(key, value)] :: items, rest)
      | rest => do
        let (item, rest) ← readFlow fuel depth rest
        let (items, rest) ← readItems fuel depth false rest
        return (item :: items, rest)

/-- The pairs between braces; a comma stands before each but the first. -/
def readMembers : Nat → Nat → Bool → Reader (List (Node × Node))
  | 0, _, _, _ => .error .ended
  | fuel + 1, depth, first, ts =>
    match ts with
    | .closeMapping :: rest => .ok ([], rest)
    | ts => do
      let rest ←
        match first, ts with
        | true, ts => pure ts
        | false, .comma :: rest => pure rest
        | false, ts => .error (stopAt ts)
      match rest with
      | .closeMapping :: rest => return ([], rest)
      | .key :: rest => do
        let (key, rest) ←
          if atAny rest [.value, .comma, .closeMapping] then pure (absent, rest)
          else readFlow fuel depth rest
        let (value, rest) ← readMemberValue fuel depth .closeMapping rest
        let (pairs, rest) ← readMembers fuel depth false rest
        return ((key, value) :: pairs, rest)
      | rest => do
        let (key, rest) ← readFlow fuel depth rest
        let (pairs, rest) ← readMembers fuel depth false rest
        return ((key, absent) :: pairs, rest)

/-- The value of a pair between brackets that `close` ends. -/
def readMemberValue : Nat → Nat → Token → Reader Node
  | 0, _, _, _ => .error .ended
  | fuel + 1, depth, close, ts =>
    match ts with
    | .value :: rest =>
      if atAny rest [.comma, close] then pure (absent, rest) else readFlow fuel depth rest
    | ts => pure (absent, ts)

end

/-- What may follow a document: its end, and nothing after that. -/
def atEnd (ts : List Token) : Except Stop Unit :=
  require (ts.dropWhile (· == .documentEnd)).isEmpty

/-- The one document among tokens.  Every level begins with a token, so without a limit their number
is enough. -/
def ofTokens (nesting : Option Nat) (ts : List Token) : Except Stop Node := do
  let fuel := 3 * ts.length + 3
  let depth := nesting.getD ts.length
  match ts with
  | [] => return absent
  | .documentStart :: rest =>
    if rest.isEmpty || atAny rest [.documentStart, .documentEnd] then
      atEnd rest
      return absent
    else
      let (node, rest) ← readBlock fuel depth false rest
      atEnd rest
      return node
  | ts =>
    let (node, rest) ← readBlock fuel depth false ts
    atEnd rest
    return node

/-- The one document of a text that an end mark follows, or of the beginning of one.  What is wrong
with the structure comes before what is wrong with the token after it. -/
def ofKnown (nesting : Option Nat) (t : Text) : Except Stop Node :=
  let scanned := scan t
  match ofTokens nesting scanned.tokens, scanned.stop with
  | .error .ended, some stop => .error stop
  | .ok _, some stop => .error stop
  | r, _ => r

/-- Whether a character may stand in YAML text. -/
def isAllowed (c : Char) : Bool :=
  let n := c.toNat
  c = '\t' || c = '\n' || c = '\r' || (0x20 ≤ n && n ≤ 0x7E) || n == 0x85 ||
    (0xA0 ≤ n && n ≤ 0xFFFD) || 0x10000 ≤ n

/-- The one document of a text; the flag tells whether the text may go on. -/
def ofText (nesting : Option Nat) (more : Bool) (t : Text) : Except Stop Node :=
  match t.findIdx? fun c => !isAllowed c with
  | none => ofKnown nesting (if more then t else t ++ [endMark])
  | some offset =>
    match ofKnown nesting (t.take (Pieces.lengthBefore offset)) with
    | .error .ended => .error .refused
    | r => r

end Node
end Graft.Yaml
