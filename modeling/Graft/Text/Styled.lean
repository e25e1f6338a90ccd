import Graft.Text.Basic

/-
Styling of a terminal inside a text.

A styling sequence is an escape character, an opening bracket, any number of parameters (digits,
semicolons and question marks) and an ASCII letter.

  `Text.unstyled t`   the text without its styling sequences.
-/
namespace Graft.Text

/-- Whether a character is a parameter of a styling sequence. -/
def isStyleParameter (c : Char) : Bool := c.isDigit || c == ';' || c == '?'

/-- The length of the styling sequence that the text starts with; zero when there is none. -/
def styleLength : Text → Nat
  | '\x1b' :: '[' :: cs =>
    let parameters := cs.takeWhile isStyleParameter
    match cs.drop parameters.length with
    | c :: _ => if c.isAlpha then parameters.length + 3 else 0
    | [] => 0
  | _ => 0

def unstyled (t : Text) : Text := go 0 t
where
  -- The first argument counts the characters of a sequence that are still to pass.
  go : Nat → Text → Text
    | _, [] => []
    | k + 1, _ :: cs => go k cs
    | 0, c :: cs =>
      match styleLength (c :: cs) with
      | 0 => c :: go 0 cs
      | n + 1 => go n cs

end Graft.Text
