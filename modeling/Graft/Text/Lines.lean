import Graft.Text.Basic

/-
Lines of a text.

A line ends at one of ten boundaries: line feed, carriage return (the two together count once),
line tabulation, form feed, the separators U+001C to U+001E, next line, and the line and paragraph
separators.  A boundary at the end of the text opens no further line.

  `isLineBreak c`        the characters that end a line;
  `Text.lines t`         the lines, without their boundaries;
  `Text.unixNewlines t`  the text with every `\r\n` and `\r` read as `\n`.
-/
namespace Graft

def isLineBreak (c : Char) : Bool :=
  let n := c.toNat
  (0x0A ≤ n && n ≤ 0x0D) || (0x1C ≤ n && n ≤ 0x1E) || n == 0x85 || n == 0x2028 || n == 0x2029

namespace Text

/-- Puts a character in front of the first line. -/
def consFirst (c : Char) : List Text → List Text
  | [] => [[c]]
  | l :: ls => (c :: l) :: ls

/-- The lines of a text, without their boundaries. -/
def lines : Text → List Text
  | [] => []
  | '\r' :: '\n' :: cs => [] :: lines cs
  | c :: cs => if isLineBreak c then [] :: lines cs else consFirst c (lines cs)

/-- Reads `\r\n` and a lone `\r` as one newline. -/
def unixNewlines : Text → Text
  | [] => []
  | '\r' :: '\n' :: cs => '\n' :: unixNewlines cs
  | c :: cs => (if c = '\r' then '\n' else c) :: unixNewlines cs

end Text
end Graft
