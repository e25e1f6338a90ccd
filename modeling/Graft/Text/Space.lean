import Graft.Text.Basic

/-
White space.

A character is white space when it has the White_Space property or is one of the four
information separators U+001C to U+001F.

  `isSpace c`      the class;
  `stripped t`     a text without white space at its ends;
  `isBlank t`      whether a text holds nothing else.
-/
namespace Graft

/-- White space: the White_Space property and the information separators. -/
def isSpace (c : Char) : Bool :=
  let n := c.toNat
  n == 0x20 || (0x09 ≤ n && n ≤ 0x0D) || (0x1C ≤ n && n ≤ 0x1F) || n == 0x85 || n == 0xA0 ||
  n == 0x1680 || (0x2000 ≤ n && n ≤ 0x200A) || n == 0x2028 || n == 0x2029 || n == 0x202F ||
  n == 0x205F || n == 0x3000

namespace Text

/-- The text without white space at its ends. -/
def stripped (t : Text) : Text := trim isSpace t

def isBlank (t : Text) : Bool := t.all isSpace

end Text
end Graft
