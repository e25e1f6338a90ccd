import Graft.Json.Basic
import Graft.Decimal.Style

/-
JSON values as ASCII text.

Every code point outside the printable ASCII range is escaped by its UTF-16 units, a surrogate by
itself.  The separators are the printer's only freedom.

  `Json.escaped t`        a string with its quotes;
  `Json.Layout`           the separators between items and after keys;
  `Json.print layout v`   a value;
  `Json.sorted v`         a value with the members of its objects in the order of their keys.
-/
namespace Graft.Json

/-- Infinities and undefined numbers are written by name. -/
def numberStyle : Decimal.Style := ⟨"Infinity".toList, "NaN".toList⟩

def unitEscape (n : Nat) : Text := ['\\', 'u'] ++ Text.hex 4 n

def escapedChar (c : Char) : Text :=
  if c = '"' then ['\\', '"']
  else if c = '\\' then ['\\', '\\']
  else if c = '\n' then ['\\', 'n']
  else if c = '\r' then ['\\', 'r']
  else if c = '\t' then ['\\', 't']
  else if c = '\x0c' then ['\\', 'f']
  else if c = '\x08' then ['\\', 'b']
  else if 0x20 ≤ c.toNat && c.toNat < 0x7F then [c]
  else if c.toNat < 0x10000 then unitEscape c.toNat
  else
    let n := c.toNat - 0x10000
    unitEscape (0xD800 + n / 0x400) ++ unitEscape (0xDC00 + n % 0x400)

def escapedPoint : Point → Text
  | .char c => escapedChar c
  | .surrogate n => unitEscape (0xD800 + n)

def escaped (t : Wide) : Text := '"' :: t.flatMap escapedPoint ++ ['"']

/-- The separators of printed values. -/
structure Layout where
  comma : Text
  -- Stands between a key and its value.
  colon : Text

def Layout.compact : Layout := ⟨[','], [':']⟩

def Layout.spaced : Layout := ⟨[',', ' '], [':', ' ']⟩

def printNumber : Number → Text
  | .int n => Text.ofInt n
  | .float f => numberStyle.render f

mutual

def print (s : Layout) : Json → Text
  | .null => "null".toList
  | .bool true => "true".toList
  | .bool false => "false".toList
  | .num n => printNumber n
  | .str t => escaped t
  | .arr items => '[' :: printItems s items ++ [']']
  | .obj members => '{' :: printMembers s members ++ ['}']

def printItems (s : Layout) : List Json → Text
  | [] => []
  | [v] => print s v
  | v :: vs => print s v ++ s.comma ++ printItems s vs

def printMembers (s : Layout) : List (Wide × Json) → Text
  | [] => []
  | [(k, v)] => escaped k ++ s.colon ++ print s v
  | (k, v) :: rest => escaped k ++ s.colon ++ print s v ++ s.comma ++ printMembers s rest

end

mutual

/-- Puts the members of every object in the order of their keys. -/
def sorted : Json → Json
  | .arr items => .arr (sortedItems items)
  | .obj members =>
    .obj ((sortedMembers members).mergeSort fun a b => !Wide.precedes b.1 a.1)
  | v => v

def sortedItems : List Json → List Json
  | [] => []
  | v :: vs => sorted v :: sortedItems vs

def sortedMembers : List (Wide × Json) → List (Wide × Json)
  | [] => []
  | (k, v) :: rest => (k, sorted v) :: sortedMembers rest

end

end Graft.Json
