import Graft.Text.Printable

/-
The quoted form of a text in messages.

Single quotes stand around the text, or double quotes when it holds a single and no double one.
The backslash and the quote in use are escaped, tab, newline and carriage return have short
escapes, and every other character that is not printable is written by its code point, with two,
four or eight hexadecimal digits.
-/
namespace Graft.Text

/-- The mark that stands around the quoted form. -/
def quoteMark (t : Text) : Char :=
  if t.contains '\'' && !t.contains '"' then '"' else '\''

def quotedChar (mark c : Char) : Text :=
  if c = mark || c = '\\' then ['\\', c]
  else if c = '\t' then ['\\', 't']
  else if c = '\n' then ['\\', 'n']
  else if c = '\r' then ['\\', 'r']
  else if isPrintable c then [c]
  else if c.toNat < 0x100 then ['\\', 'x'] ++ hex 2 c.toNat
  else if c.toNat < 0x10000 then ['\\', 'u'] ++ hex 4 c.toNat
  else ['\\', 'U'] ++ hex 8 c.toNat

def quoted (t : Text) : Text :=
  let mark := quoteMark t
  mark :: t.flatMap (quotedChar mark) ++ [mark]

end Graft.Text
